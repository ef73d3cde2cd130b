import Jxtd.Lib.Strings
import Jxtd.Proto.Datatransfer.Message
import Jxtd.Proto.Taskdep.Message

/-!
# The commands of the router

The commands on the models of the router (`router/lib/cmd.cc`). A model has a name and an id; it is
private, with its data in a file of the router, or in the cloud. What a command finds in a file and
the id that `create_id` draws are arguments.

* `Registry`: the lists of the models.
* `MDDECL`, `MDRM`: models are declared and removed.
* `MDPUSH`: a model is pushed to the storage; `CPSTART`: a task is started, up to its negotiation.
* `Registry.Unique`, **`MDDECL_unique`**, **`MDRM_unique`**, **`MDPUSH_unique`**: names and ids are
  unique.
* **`CPSTART_cloud`**: a model of the cloud is found by its id and by its name.
-/

namespace Jxtd.Router

open Lib

/-- `ATMessage_Type`. -/
inductive ATMessageType
  | NON
  | CMD
  | SEARCH
  | TEST
  | LONG
  deriving DecidableEq

structure ATMessage where
  type : ATMessageType
  param : List Str
  data : Str

/-- The addresses of the two sides of a transfer. -/
structure Flag where
  datatransferRouter : Str
  datatransferStorage : Str

/-- The models as pairs of a name and an id, and the id of the running task. -/
structure Registry where
  user : Str
  enginePrivate : List (Str × Str)
  engineCloud : List (Str × Str)
  taskid : UInt64
  deriving DecidableEq

/-- The parts before and after the first underscore. -/
def splitJudge (s : Str) : Option (Str × Str) :=
  (s.findIdx? fun b => b = 0x5f).map fun pos => (s.take pos, s.drop (pos + 1))

theorem splitJudge_append {judge : Str} (h : (0x5f : UInt8) ∉ judge) (temp : Str) :
    splitJudge (judge ++ 0x5f :: temp) = some (judge, temp) := by
  have hpos : (judge ++ 0x5f :: temp).findIdx? (fun b => b = 0x5f) = some judge.length :=
    findFirstOf_append h temp
  rw [splitJudge, hpos, Option.map_some, List.take_left, drop_past]

/-- The test of `create_id`. -/
def Registry.checkId (r : Registry) (id : Str) : Bool :=
  !(r.engineCloud.any fun engine => engine.2 = id) &&
    !(r.enginePrivate.any fun engine => engine.2 = id)

/-! ## Declaring and removing -/

def existed (engine : Str × Str) (kind : String) : Str :=
  lit "AT+MDINFO=0," ++ engine.1 ++ lit "," ++ engine.2 ++ lit "," ++ lit kind ++
    lit " model has existed"

def modelInfo (engine : Str × Str) : Str := lit "AT+MDINFO=0," ++ engine.1 ++ lit "," ++ engine.2

/-- `MDDECL`; `opened` tells whether the file of a new private model can be opened. -/
def MDDECL (r : Registry) (id : Str) (opened : Bool) (message : ATMessage) : Str × Registry :=
  match message.type with
  | .CMD =>
    if r.user = [] then (lit "AT+MDINFO=-4,the service is not registered", r)
    else
      match message.param with
      | [name, mid] =>
        match r.engineCloud.find? fun engine => engine.1 = name ∨ engine.2 = mid,
          r.enginePrivate.find? fun engine => engine.1 = name ∨ engine.2 = mid with
        | some engine, _ => (existed engine "remote", r)
        | none, some engine => (existed engine "private", r)
        | none, none =>
          (modelInfo (name, mid), { r with engineCloud := r.engineCloud ++ [(name, mid)] })
      | [param] =>
        match splitJudge param with
        | none => (lit "AT+ENVAL", r)
        | some (judge, temp) =>
          let answer : Option (Str × Str) → Str × Registry
            | some engine => (modelInfo engine, r)
            | none => (lit "AT+MDINFO=-1,the model is not existed", r)
          if judge = lit "id" then answer (r.enginePrivate.find? fun engine => temp = engine.2)
          else if judge = lit "mid" then answer (r.engineCloud.find? fun engine => temp = engine.2)
          else if judge = lit "name" then
            answer ((r.enginePrivate ++ r.engineCloud).find? fun engine => temp = engine.1)
          else (lit "AT+ENVAL", r)
      | _ => (lit "AT+ENVAL", r)
  | .SEARCH =>
    if r.user = [] then (lit "AT+MDINFO=-4,the service is not registered", r)
    else
      (lit "AT+MDINFO=" ++ (r.enginePrivate ++ r.engineCloud).flatMap fun engine =>
        lit "(0," ++ engine.1 ++ lit "," ++ engine.2 ++ lit "),", r)
  | .LONG =>
    match message.param with
    | [name] =>
      match r.enginePrivate.find? fun engine => engine.1 = name,
        r.engineCloud.find? fun engine => engine.1 = name with
      | some engine, _ => (existed engine "private", r)
      | none, some engine => (existed engine "remote", r)
      | none, none =>
        if !opened then
          (lit "AT+MDINFO=-3," ++ name ++ lit "," ++ id ++ lit ",unable ot open file", r)
        else (modelInfo (name, id), { r with enginePrivate := r.enginePrivate ++ [(name, id)] })
    | _ => (lit "AT+ENVAL", r)
  | _ => (lit "AT+ENVAL", r)

/-- `MDRM`; `remove` of the file does not fail. -/
def MDRM (r : Registry) (message : ATMessage) : Str × Registry :=
  let missing := (lit "AT+MDMOD=-1,model is not existed", r)
  match message.type, message.param with
  | .CMD, [param] =>
    if r.user = [] then (lit "AT+MDMOD=-4,the service is not registered", r)
    else
      match splitJudge param with
      | none => (lit "AT+ENVAL", r)
      | some (judge, temp) =>
        let byId (engine : Str × Str) : Bool := temp = engine.2
        let byName (engine : Str × Str) : Bool := temp = engine.1
        if judge = lit "mid" then
          if r.engineCloud.any byId then
            (lit "AT+MDMOD=0", { r with engineCloud := r.engineCloud.eraseP byId })
          else missing
        else if judge = lit "id" then
          match r.enginePrivate.find? byId with
          | none => missing
          | some engine =>
            -- an empty id counts as not found, after the model is gone
            let r := { r with enginePrivate := r.enginePrivate.eraseP byId }
            if engine.2 = [] then (missing.1, r) else (lit "AT+MDMOD=0", r)
        else if judge = lit "name" then
          let r' := { r with enginePrivate := r.enginePrivate.eraseP byName }
          if (r.enginePrivate.find? byName).any fun engine => engine.1 ≠ [] then
            (lit "AT+MDMOD=0", r')
          else if r'.engineCloud.any byName then
            (lit "AT+MDMOD=0", { r' with engineCloud := r'.engineCloud.eraseP byName })
          else (missing.1, r')
        else (lit "AT+ENVAL", r)
  | _, _ => (lit "AT+ENVAL", r)

/-! ## Pushing and starting -/

/-- What a push sends, and the router after a successful one. -/
structure Push where
  name : Str
  mid : Str
  data : Str
  after : Registry

/-- The push of the private model that `found` accepts; `infile` gives the data of these models. -/
def pushPrivate (r : Registry) (infile : Str → Option Str) (temp : Str) (found : Str × Str → Bool) :
    Except Str Push :=
  let (name, mid) := (r.enginePrivate.find? found).getD ([], [])
  if name = [] ∨ mid = [] then
    .error (lit "AT+MDPUSH=-1," ++ temp ++ lit ",the model is not existed")
  else
    match infile mid with
    | none => .error (lit "AT+MDPUSH=-1," ++ name ++ lit "," ++ mid ++
        lit ",the model is not existed")
    | some data => .ok ⟨name, mid, data, { r with
        enginePrivate := r.enginePrivate.eraseP found
        engineCloud := r.engineCloud ++ [(name, mid)] }⟩

/-- `MDPUSH`. The ports of the addresses are numbers. -/
def MDPUSH (r : Registry) (flag : Flag) (id : Str) (infile : Str → Option Str) (message : ATMessage) :
    Except Str Push :=
  match message.param with
  | [param] =>
    if r.user = [] then .error (lit "AT+MDPUSH=-4,the service is not registered")
    else if (0x3a : UInt8) ∉ flag.datatransferRouter then
      .error (lit "AT+MDPUSH=-5,the source url is incorrect")
    else if (0x3a : UInt8) ∉ flag.datatransferStorage then
      .error (lit "AT+MDPUSH=-5,the dest url is incorrect")
    else
      match message.type with
      | .CMD =>
        match splitJudge param with
        | none => .error (lit "AT+ENVAL")
        | some (judge, temp) =>
          if judge = lit "id" then pushPrivate r infile temp fun engine => temp = engine.2
          else if judge = lit "name" then pushPrivate r infile temp fun engine => temp = engine.1
          else .error (lit "AT+ENVAL")
      | .LONG =>
        match (r.engineCloud ++ r.enginePrivate).find? fun engine => engine.1 = param with
        | some engine => .error (lit "AT+MDPUSH=-2," ++ param ++ lit "," ++ engine.2 ++
            lit ",duplicate engine indexes")
        | none => .ok ⟨param, id, message.data, { r with
            engineCloud := r.engineCloud ++ [(param, id)] }⟩
      | _ => .error (lit "AT+ENVAL")
  | _ => .error (lit "AT+ENVAL")

/-- The source that a push sends: the name is the first component, the id the second. -/
def Push.adtsrc (push : Push) : Datatransfer.Adtsrc :=
  { Datatransfer.Adtsrc.new with
    type := 0x0, engineattr := (push.name, push.mid), binary := push.data }

/-- The request of a push. -/
def Push.request (push : Push) (flag : Flag) : Datatransfer.Request where
  token := []
  src := flag.datatransferRouter
  dest := flag.datatransferStorage
  direction := 0x1
  adtsrcs := [push.adtsrc]

/-- `CPSTART` up to the negotiation: the engine that it negotiates. -/
def CPSTART (r : Registry) (infile : Str → Option Str) (message : ATMessage) :
    Except Str Taskdep.Engine :=
  let cloud (found : Str × Str → Bool) : Option Taskdep.Engine :=
    (r.engineCloud.find? found).map fun engine =>
      { Taskdep.Engine.new with id := engine.2, name := engine.1 }
  -- the engine of a private model is its data
  let read (found : Str × Str → Bool) : Option Taskdep.Engine :=
    ((r.enginePrivate.find? found).bind fun engine => infile engine.2).map fun data =>
      { Taskdep.Engine.new with binary := data }
  let start : Option Taskdep.Engine → Except Str Taskdep.Engine
    | none => .error (lit "AT+CPRES=-1,the model is not existed")
    | some engine => .ok engine
  match message.param with
  | [] => .error (lit "AT+ENVAL")
  | front :: rest =>
    if rest = [] ∨ 2 < rest.length ∨ (message.type ≠ .CMD ∧ message.type ≠ .LONG) then
      .error (lit "AT+ENVAL")
    else if rest.length = 2 ∧ rest[1]? ≠ some (lit "nonblock") then .error (lit "AT+ENVAL")
    else if r.user = [] then .error (lit "AT+CPRES=-4,the service is not registered")
    else if r.taskid ≠ 0 then
      .error (lit "AT+CPRES=-9," ++ decimal r.taskid.toNat ++ lit "the task is running")
    else
      match splitJudge front with
      | none => .error (lit "AT+ENVAL")
      | some (judge, temp) =>
        if judge = lit "mid" then start (cloud fun engine => engine.2 = temp)
        else if judge = lit "id" then start (read fun engine => engine.2 = temp)
        else if judge = lit "name" then
          start ((cloud fun engine => engine.1 = temp).or (read fun engine => engine.1 = temp))
        else .error (lit "AT+ENVAL")

/-! ## Names and ids -/

/-- The models of the router. -/
def Registry.models (r : Registry) : List (Str × Str) := r.enginePrivate ++ r.engineCloud

/-- Two models differ in their names and in their ids. -/
def Registry.Unique (r : Registry) : Prop := r.models.Pairwise fun a b => a.1 ≠ b.1 ∧ a.2 ≠ b.2

variable {r r' : Registry} {x : Str × Str}

theorem Registry.Unique.perm (h : r.Unique) (hperm : r'.models.Perm r.models) : r'.Unique :=
  (hperm.pairwise_iff fun ⟨h₁, h₂⟩ => ⟨h₁.symm, h₂.symm⟩).mpr h

/-- One more model, with a new name and a new id. -/
theorem Registry.Unique.add (h : r.Unique) (hname : ∀ engine ∈ r.models, engine.1 ≠ x.1)
    (hid : ∀ engine ∈ r.models, engine.2 ≠ x.2) (hperm : r'.models.Perm (x :: r.models)) :
    r'.Unique := by
  have hcons : (x :: r.models).Pairwise fun a b => a.1 ≠ b.1 ∧ a.2 ≠ b.2 :=
    List.pairwise_cons.mpr ⟨fun engine he => ⟨(hname engine he).symm, (hid engine he).symm⟩, h⟩
  exact (hperm.pairwise_iff fun ⟨h₁, h₂⟩ => ⟨h₁.symm, h₂.symm⟩).mpr hcons

theorem Registry.Unique.sublist (h : r.Unique) (hsub : r'.models.Sublist r.models) : r'.Unique :=
  List.Pairwise.sublist hsub h

theorem ne_of_checkId {id : Str} (h : r.checkId id = true) : ∀ engine ∈ r.models, engine.2 ≠ id := by
  rw [Registry.checkId, Bool.and_eq_true, Bool.not_eq_true', Bool.not_eq_true',
    List.any_eq_false, List.any_eq_false] at h
  intro engine he heq
  rcases List.mem_append.mp he with he | he
  · exact h.2 engine he (decide_eq_true heq)
  · exact h.1 engine he (decide_eq_true heq)

/-- What is in neither list. -/
theorem ne_of_find?_append {α : Type} {xs ys : List α} {p : α → Prop} [DecidablePred p]
    (hxs : xs.find? (fun a => decide (p a)) = none) (hys : ys.find? (fun a => decide (p a)) = none) :
    ∀ a ∈ xs ++ ys, ¬ p a := by
  intro a ha hp
  rcases List.mem_append.mp ha with ha | ha
  · exact List.find?_eq_none.mp hxs a ha (decide_eq_true hp)
  · exact List.find?_eq_none.mp hys a ha (decide_eq_true hp)

/-- A new model at the end of either list. -/
theorem perm_private (r : Registry) (x : Str × Str) :
    ({ r with enginePrivate := r.enginePrivate ++ [x] } : Registry).models.Perm (x :: r.models) := by
  show (r.enginePrivate ++ [x] ++ r.engineCloud).Perm _
  rw [List.append_assoc]
  exact List.perm_middle

theorem perm_cloud (r : Registry) (x : Str × Str) :
    ({ r with engineCloud := r.engineCloud ++ [x] } : Registry).models.Perm (x :: r.models) := by
  show (r.enginePrivate ++ (r.engineCloud ++ [x])).Perm _
  rw [← List.append_assoc]
  exact List.perm_append_singleton x _

/-- **Declaring keeps names and ids unique.** -/
theorem MDDECL_unique (h : r.Unique) {id : Str} (hid : r.checkId id = true) (opened : Bool)
    (message : ATMessage) : (MDDECL r id opened message).2.Unique := by
  unfold MDDECL
  split
  · split_ifs
    · exact h
    split
    · split
      · exact h
      · exact h
      · rename_i hcloud hprivate
        have hnew := ne_of_find?_append hprivate hcloud
        exact h.add (fun engine he hname => hnew engine he (.inl hname))
          (fun engine he hmid => hnew engine he (.inr hmid)) (perm_cloud r _)
    · split
      · exact h
      · dsimp only
        split_ifs
        · split <;> exact h
        · split <;> exact h
        · split <;> exact h
        · exact h
    · exact h
  · split_ifs
    · exact h
    · exact h
  · split
    · split
      · exact h
      · exact h
      · rename_i hprivate hcloud
        split_ifs
        · exact h
        · exact h.add (ne_of_find?_append hprivate hcloud) (ne_of_checkId hid) (perm_private r _)
    · exact h
  · exact h

theorem models_sublist {xs ys : List (Str × Str)} (hxs : xs.Sublist r.enginePrivate)
    (hys : ys.Sublist r.engineCloud) :
    ({ r with enginePrivate := xs, engineCloud := ys } : Registry).models.Sublist r.models :=
  hxs.append hys

/-- **Removing keeps names and ids unique.** -/
theorem MDRM_unique (h : r.Unique) (message : ATMessage) : (MDRM r message).2.Unique := by
  have hprivate (found : Str × Str → Bool) :
      ({ r with enginePrivate := r.enginePrivate.eraseP found } : Registry).Unique :=
    h.sublist (models_sublist List.eraseP_sublist (List.Sublist.refl _))
  have hcloud (found : Str × Str → Bool) :
      ({ r with engineCloud := r.engineCloud.eraseP found } : Registry).Unique :=
    h.sublist (models_sublist (List.Sublist.refl _) List.eraseP_sublist)
  unfold MDRM
  dsimp only
  split
  · split_ifs
    · exact h
    split
    · exact h
    · split_ifs
      · exact hcloud _
      · exact h
      · split
        · exact h
        · split_ifs
          · exact hprivate _
          · exact hprivate _
      · exact hprivate _
      · exact h.sublist (models_sublist List.eraseP_sublist List.eraseP_sublist)
      · exact hprivate _
      · exact h
  · exact h

/-! ## Pushed models -/

variable {flag : Flag} {id : Str} {infile : Str → Option Str} {message : ATMessage} {push : Push}

/-- What is found can be taken out and put in front. -/
theorem perm_eraseP {α : Type} {xs : List α} {p : α → Bool} {a : α} (h : xs.find? p = some a) :
    xs.Perm (a :: xs.eraseP p) := by
  obtain ⟨hp, as, bs, rfl, has⟩ := List.find?_eq_some_iff_append.mp h
  rw [List.eraseP_append_right _ fun b hb => by simpa using has b hb, List.eraseP_cons_of_pos hp]
  exact List.perm_middle

theorem pushPrivate_ok {temp : Str} {found : Str × Str → Bool}
    (h : pushPrivate r infile temp found = .ok push) :
    r.enginePrivate.find? found = some (push.name, push.mid) ∧ push.after = { r with
      enginePrivate := r.enginePrivate.eraseP found
      engineCloud := r.engineCloud ++ [(push.name, push.mid)] } := by
  unfold pushPrivate at h
  cases hf : r.enginePrivate.find? found with
  | none =>
    rw [hf] at h
    cases h
  | some engine =>
    rw [hf] at h
    dsimp only [Option.getD_some] at h
    split_ifs at h
    split at h
    · cases h
    · cases h
      exact ⟨rfl, rfl⟩

/-- **Everything that a push can do**: a private model moves to the cloud, or a new one is added. -/
theorem MDPUSH_ok (h : MDPUSH r flag id infile message = .ok push) :
    (∃ found, r.enginePrivate.find? found = some (push.name, push.mid) ∧ push.after = { r with
      enginePrivate := r.enginePrivate.eraseP found
      engineCloud := r.engineCloud ++ [(push.name, push.mid)] }) ∨
    (∀ engine ∈ r.engineCloud ++ r.enginePrivate, engine.1 ≠ push.name) ∧ push.mid = id ∧
      push.after = { r with engineCloud := r.engineCloud ++ [(push.name, push.mid)] } := by
  unfold MDPUSH at h
  split at h
  · split_ifs at h
    split at h
    · split at h
      · cases h
      · split_ifs at h
        · exact .inl ⟨_, pushPrivate_ok h⟩
        · exact .inl ⟨_, pushPrivate_ok h⟩
    · split at h
      · cases h
      · rename_i hnone
        cases h
        exact .inr ⟨fun engine he hname => List.find?_eq_none.mp hnone engine he (decide_eq_true hname),
          rfl, rfl⟩
    · cases h
  · cases h

/-- A successful push leaves the model in the cloud. -/
theorem mem_engineCloud_of_MDPUSH (h : MDPUSH r flag id infile message = .ok push) :
    (push.name, push.mid) ∈ push.after.engineCloud := by
  obtain ⟨found, -, hafter⟩ | ⟨-, -, hafter⟩ := MDPUSH_ok h
  · rw [hafter]
    exact List.mem_append_right _ (List.mem_singleton_self _)
  · rw [hafter]
    exact List.mem_append_right _ (List.mem_singleton_self _)

/-- **Pushing keeps names and ids unique.** -/
theorem MDPUSH_unique (h : r.Unique) (hid : r.checkId id = true)
    (hpush : MDPUSH r flag id infile message = .ok push) : push.after.Unique := by
  obtain ⟨found, hfind, hafter⟩ | ⟨hname, hmid, hafter⟩ := MDPUSH_ok hpush
  · refine h.perm ?_
    rw [hafter]
    calc
      (r.enginePrivate.eraseP found ++ (r.engineCloud ++ [(push.name, push.mid)])).Perm
          ((push.name, push.mid) :: (r.enginePrivate.eraseP found ++ r.engineCloud)) := by
        rw [← List.append_assoc]
        exact List.perm_append_singleton _ _
      List.Perm _ (r.enginePrivate ++ r.engineCloud) := (perm_eraseP hfind).symm.append_right _
  · rw [hafter]
    refine h.add (fun engine he => hname engine ?_) (fun engine he => ?_) (perm_cloud r _)
    · exact List.perm_append_comm.mem_iff.mp he
    · rw [hmid]
      exact ne_of_checkId hid engine he

/-! ## Starting -/

/-- Among elements with distinct keys, the one with a given key is found. -/
theorem find?_eq_of_pairwise {α κ : Type} [DecidableEq κ] {f : α → κ} {xs : List α} {a : α}
    (h : xs.Pairwise fun a b => f a ≠ f b) (ha : a ∈ xs) :
    xs.find? (fun b => f b = f a) = some a := by
  obtain ⟨as, bs, rfl⟩ := List.append_of_mem ha
  have hne : ∀ b ∈ as, f b ≠ f a := fun b hb =>
    (List.pairwise_append.mp h).2.2 b hb a List.mem_cons_self
  exact List.find?_eq_some_iff_append.mpr ⟨by simp, as, bs, rfl, fun b hb => by simpa using hne b hb⟩

/-- A command refers to a model of the cloud by its id or by its name. -/
def ATMessage.Refers (message : ATMessage) (engine : Str × Str) : Prop :=
  message.param.head? = some (lit "mid_" ++ engine.2) ∨
    message.param.head? = some (lit "name_" ++ engine.1)

theorem Registry.Unique.cloud (h : r.Unique) :
    r.engineCloud.Pairwise fun a b => a.1 ≠ b.1 ∧ a.2 ≠ b.2 :=
  List.Pairwise.sublist (List.sublist_append_right _ _) h

/-- **A model of the cloud** is found by its id and by its name. -/
theorem CPSTART_cloud (h : r.Unique) {name mid : Str} (hmem : (name, mid) ∈ r.engineCloud)
    (hrefers : message.Refers (name, mid)) {engine : Taskdep.Engine}
    (hstart : CPSTART r infile message = .ok engine) :
    engine = { Taskdep.Engine.new with id := mid, name := name } := by
  have hmid := find?_eq_of_pairwise (f := Prod.snd) (h.cloud.imp And.right) hmem
  have hname := find?_eq_of_pairwise (f := Prod.fst) (h.cloud.imp And.left) hmem
  have hjudge_mid : splitJudge (lit "mid_" ++ mid) = some (lit "mid", mid) :=
    splitJudge_append (by decide : (0x5f : UInt8) ∉ lit "mid") mid
  have hjudge_name : splitJudge (lit "name_" ++ name) = some (lit "name", name) :=
    splitJudge_append (by decide : (0x5f : UInt8) ∉ lit "name") name
  unfold CPSTART at hstart
  split at hstart
  · cases hstart
  · rename_i front rest hparam
    rw [ATMessage.Refers, hparam, List.head?_cons, Option.some_inj, Option.some_inj] at hrefers
    split_ifs at hstart
    rcases hrefers with rfl | rfl
    · rw [hjudge_mid] at hstart
      simp only [hmid] at hstart
      cases hstart
      rfl
    · rw [hjudge_name] at hstart
      simp only [hname] at hstart
      cases hstart
      rfl

end Jxtd.Router
