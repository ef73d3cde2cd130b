import Jxtd.Lib.Except
import Jxtd.Lib.Run
import Jxtd.Lib.Sockets
import Jxtd.Router.Answers

/-!
# The loop of the router

The loop of `router/bin/main.cc` over its sockets: `select` tells which of them are ready, and the
descriptors are visited one after the other. A visit accepts a connection, closes one, or answers
what one segment brings.

* `Variables`, `System`, `loopStep`: the variables of the loop, the sockets, and a step.
* `respond_received`: the commands that get to their functions.
* `serve`: the segments in the order of their arrival, each handled by its function.
* `Inv`, `Inv.step`: what a step keeps.
* **`loop_serves`**: every segment is answered to the connection that it came from, in its turn.
* **`overflow_iff`**: when a connection is accepted that does not fit into an `fd_set`.
-/

namespace Jxtd.Router.Loop

open Lib Lib.Posix

/-- `FD_SETSIZE` -/
def fdSetsize : ℕ := 1024

/-- The variables of the loop; `i` is none where `select` is called. -/
structure Variables (φ : Type) where
  session : Session φ
  readSet : ℕ → Bool
  clientSockets : List ℕ := []
  tempSet : ℕ → Bool := fun _ => false
  i : Option ℕ := none

/-- A segment that was received, with the results that came before it and what was outside. The
connection that was behind the descriptor at the last `select`, and the one that is there now. -/
structure Exchange (φ : Type) where
  polled : Option ℕ
  source : Option ℕ
  results : List Arrival
  outside : Outside φ
  segment : Str

/-- The loop, its sockets now and at the last `select`, and what was received and sent. -/
structure System (φ : Type) extends Variables φ where
  sockets : Sockets
  polled : Sockets
  received : List (Exchange φ) := []
  sent : List (Option ℕ × Str) := []

/-- What a system call brings: the sockets that are ready, if `select` does not fail, whether
`accept` succeeds, the bytes that `recv` reads. -/
structure Event (φ : Type) where
  ready : Option (ℕ → Bool)
  accepted : Bool
  recv : Str
  results : List Arrival
  outside : Outside φ

/-- The loop is left: `main` returns, a descriptor does not fit into an `fd_set`, or a function of
the table does not return. -/
inductive Stop
  | returned (code : ℤ)
  | overflow
  | lost
deriving DecidableEq

section Steps

variable {φ : Type}

/-- The answer to a segment. -/
def respond (session : Session φ) (results : List Arrival) (o : Outside φ) (segment : Str) :
    Answer × Session φ :=
  let session := { session with task := results.foldl Slot.process session.task }
  match Misc.ATParser.parse (cstr segment) with
  | none => (lit "AT+ENVAL", session)
  | some m => o.answer session m

/-- `select` -/
def select (s : System φ) (e : Event φ) : Except Stop (System φ) :=
  match e.ready with
  | none => .error (.returned 1)
  | some ready =>
    .ok { s with tempSet := fun i => s.readSet i && ready i, i := some 0, polled := s.sockets }

/-- The listening socket is ready. -/
def acceptClient (s : System φ) (e : Event φ) : Except Stop (System φ) :=
  if e.accepted = false then .error (.returned 10)
  else
    let clientSocket := lowest s.sockets.used
    if fdSetsize ≤ clientSocket then .error .overflow
    else .ok { s with
      readSet := Function.update s.readSet clientSocket true
      clientSockets := s.clientSockets ++ [clientSocket]
      sockets := s.sockets.accept }

/-- The socket of a client is ready. -/
def serveClient (s : System φ) (i : ℕ) (e : Event φ) : Except Stop (System φ) :=
  if e.recv = [] then
    .ok { s with
      readSet := Function.update s.readSet i false
      clientSockets := s.clientSockets.erase i
      sockets := s.sockets.close i }
  else
    match respond s.session e.results e.outside e.recv with
    | (none, _) => .error .lost
    | (some send_, session) =>
      .ok { s with
        session
        received := s.received ++
          [⟨s.polled.lookup i, s.sockets.lookup i, e.results, e.outside, e.recv⟩]
        sent := s.sent ++ [(s.sockets.lookup i, send_ ++ Misc.ATParser.crlf)] }

/-- One descriptor of the `for` loop. -/
def visit (server : ℕ) (s : System φ) (i : ℕ) (e : Event φ) : Except Stop (System φ) :=
  if s.tempSet i then if i = server then acceptClient s e else serveClient s i e else .ok s

/-- The value of `i` after a visit. -/
def nextDescriptor (i : ℕ) : Option ℕ := if i + 1 < fdSetsize then some (i + 1) else none

/-- A step of the loop. -/
def loopStep (server : ℕ) (s : System φ) (e : Event φ) : Except Stop (System φ) :=
  match s.i with
  | none => select s e
  | some i => (visit server s i e).map fun s => { s with i := nextDescriptor i }

/-- The loop when it is entered; the descriptors that the process holds otherwise stay as they are. -/
def entered (files : φ) (server : ℕ) (others : Finset ℕ) : System φ where
  session := { files }
  readSet i := decide (i = server)
  sockets := .none others
  polled := .none others

/-- The segments are handled in their order; the answers, and the state in the end. -/
def serve (session : Session φ) : List (Exchange φ) → Option (List Str × Session φ)
  | [] => some ([], session)
  | x :: xs =>
    match respond session x.results x.outside x.segment with
    | (none, _) => none
    | (some answer, session') => (serve session' xs).map fun out => (answer :: out.1, out.2)

/-- **A segment gets to a function** exactly if it is a command that is received; any other one
changes nothing but the slot, where results come in. -/
theorem respond_received (session : Session φ) (results : List Arrival) (o : Outside φ)
    (segment : Str) :
    let session' := { session with task := results.foldl Slot.process session.task }
    (received segment = none →
      respond session results o segment = (some (lit "AT+ENVAL"), session')) ∧
      ∀ m, received segment = some m → ∃ f, Function.find m.cmd = some f ∧
        respond session results o segment = o.call session' m.toATMessage f := by
  rw [respond, received]
  cases Misc.ATParser.parse (cstr segment) with
  | none => exact ⟨fun _ => rfl, fun m hm => by cases hm⟩
  | some m =>
    rw [Option.filter_some]
    by_cases hcmd : m.cmd ∈ functions
    · obtain ⟨f, hf⟩ := Option.isSome_iff_exists.mp (Function.isSome_find.mpr hcmd)
      rw [if_pos (decide_eq_true hcmd)]
      refine ⟨fun h => (by cases h), ?_⟩
      rintro _ ⟨⟩
      refine ⟨f, hf, ?_⟩
      simp only [Outside.answer, hf]
    · have hfind : Function.find m.cmd = none :=
        Option.not_isSome_iff_eq_none.mp fun h => hcmd (Function.isSome_find.mp h)
      rw [if_neg (by simpa using hcmd)]
      refine ⟨fun _ => ?_, fun m' hm' => (by cases hm')⟩
      simp only [Outside.answer, hfind]

end Steps

/-! ## What a step keeps -/

/-- The sockets of the loop are those that are open, and what is still to be visited is what was
ready. -/
structure Inv {φ : Type} (server : ℕ) (others : Finset ℕ) (s : System φ) : Prop where
  others : s.sockets.others = others
  readSet : ∀ i, s.readSet i = true ↔ i = server ∨ i ∈ s.clientSockets
  nodup : s.clientSockets.Nodup
  conns : ∀ i, i ∈ s.clientSockets ↔ i ∈ s.sockets.conns
  bound : ∀ i ∈ s.clientSockets, i < fdSetsize
  pending : ∀ i, s.i = some i → ∀ j, i ≤ j → s.tempSet j = true →
    j = server ∨ ∃ c, s.sockets.lookup j = some c ∧ s.polled.lookup j = some c

section Invariant

variable {φ : Type} {server : ℕ} {others : Finset ℕ} {s s' : System φ} {e : Event φ}

theorem inv_entered (files : φ) (server : ℕ) (others : Finset ℕ) :
    Inv server others (entered files server others) where
  others := rfl
  readSet i := by simp [entered]
  nodup := List.nodup_nil
  conns i := by simp [entered, Sockets.none]
  bound i h := absurd h List.not_mem_nil
  pending i h := nomatch h

/-- The connections of the sockets that are read from. -/
theorem Inv.lookup (h : Inv server others s) {i : ℕ} (hi : i ∈ s.clientSockets) :
    ∃ c, s.sockets.lookup i = some c :=
  Option.isSome_iff_exists.mp (AList.lookup_isSome.mpr ((h.conns i).mp hi))

theorem Inv.select (h : Inv server others s) (hstep : select s e = .ok s') :
    Inv server others s' := by
  unfold Loop.select at hstep
  cases hready : e.ready with
  | none =>
    rw [hready] at hstep
    cases hstep
  | some ready =>
    rw [hready] at hstep
    cases hstep
    refine ⟨h.others, h.readSet, h.nodup, h.conns, h.bound, fun i _ j _ hj => ?_⟩
    have hread : s.readSet j = true := (Bool.and_eq_true_iff.mp hj).1
    rcases (h.readSet j).mp hread with heq | hmem
    · exact .inl heq
    · obtain ⟨c, hc⟩ := h.lookup hmem
      exact .inr ⟨c, hc, hc⟩

/-- What is left after a descriptor was visited. -/
theorem Inv.next (h : Inv server others s) {i : ℕ} (hi : s.i = some i)
    (hothers : s'.sockets.others = s.sockets.others) (htemp : s'.tempSet = s.tempSet)
    (hpolled : s'.polled = s.polled)
    (hreadSet : ∀ i, s'.readSet i = true ↔ i = server ∨ i ∈ s'.clientSockets)
    (hnodup : s'.clientSockets.Nodup)
    (hconns : ∀ i, i ∈ s'.clientSockets ↔ i ∈ s'.sockets.conns)
    (hbound : ∀ i ∈ s'.clientSockets, i < fdSetsize)
    (hlookup : ∀ j, i < j → ∀ c, s.sockets.lookup j = some c → s'.sockets.lookup j = some c) :
    Inv server others { s' with i := nextDescriptor i } := by
  refine ⟨hothers.trans h.others, hreadSet, hnodup, hconns, hbound, fun i' hi' j hj hready => ?_⟩
  have hlt : i < j := by
    unfold nextDescriptor at hi'
    split_ifs at hi'
    cases hi'
    exact hj
  rw [htemp] at hready
  rw [hpolled]
  rcases h.pending i hi j hlt.le hready with heq | ⟨c, hc, hold⟩
  · exact .inl heq
  · exact .inr ⟨c, hlookup j hlt c hc, hold⟩

theorem Inv.acceptClient (h : Inv server others s) {i : ℕ} (hi : s.i = some i)
    (hstep : acceptClient s e = .ok s') :
    Inv server others { s' with i := nextDescriptor i } := by
  unfold Loop.acceptClient at hstep
  dsimp only at hstep
  split_ifs at hstep with hrefused hfull
  cases hstep
  obtain ⟨hother, hnew⟩ := s.sockets.notMem_lowest
  have hnotMem : lowest s.sockets.used ∉ s.clientSockets := fun hmem => hnew ((h.conns _).mp hmem)
  refine h.next hi rfl rfl rfl (fun j => ?_) ?_ (fun j => ?_) (fun j hj => ?_) fun j _ c hc => ?_
  · dsimp only
    rw [List.mem_append, List.mem_singleton]
    by_cases heq : j = lowest s.sockets.used
    · rw [heq, Function.update_self]
      exact iff_of_true rfl (.inr (.inr rfl))
    · rw [Function.update_of_ne heq, h.readSet]
      simp [heq]
  · exact List.nodup_append_comm.mp (List.nodup_cons.mpr ⟨hnotMem, h.nodup⟩)
  · rw [List.mem_append, List.mem_singleton, h.conns]
    exact or_comm.trans (AList.mem_insert _).symm
  · rcases List.mem_append.mp hj with hj | hj
    · exact h.bound j hj
    · rw [List.mem_singleton.mp hj]
      exact not_le.mp hfull
  · exact (Sockets.lookup_accept_ne (Sockets.ne_lowest hc)).trans hc

theorem Inv.serveClient (h : Inv server others s) {i : ℕ} (hi : s.i = some i)
    (hne : i ≠ server) (hstep : serveClient s i e = .ok s') :
    Inv server others { s' with i := nextDescriptor i } := by
  unfold Loop.serveClient at hstep
  split_ifs at hstep with hclosed
  · cases hstep
    refine h.next hi rfl rfl rfl (fun j => ?_) (h.nodup.erase i) (fun j => ?_) (fun j hj => ?_)
      fun j hlt c hc => ?_
    · dsimp only
      rw [h.nodup.mem_erase_iff]
      by_cases heq : j = i
      · rw [heq, Function.update_self]
        simp [hne]
      · rw [Function.update_of_ne heq, h.readSet]
        simp [heq]
    · rw [h.nodup.mem_erase_iff, h.conns]
      exact AList.mem_erase.symm
    · exact h.bound j (List.mem_of_mem_erase hj)
    · exact (Sockets.lookup_close_ne hlt.ne').trans hc
  · split at hstep
    · cases hstep
    · cases hstep
      exact h.next hi rfl rfl rfl h.readSet h.nodup h.conns h.bound fun _ _ _ hc => hc

theorem Inv.step (h : Inv server others s) (hstep : loopStep server s e = .ok s') :
    Inv server others s' := by
  unfold loopStep at hstep
  cases hi : s.i with
  | none =>
    rw [hi] at hstep
    exact h.select hstep
  | some i =>
    rw [hi] at hstep
    dsimp only at hstep
    obtain ⟨t, ht, rfl⟩ := map_eq_ok.mp hstep
    unfold visit at ht
    split_ifs at ht with hready heq
    · exact h.acceptClient hi ht
    · exact h.serveClient hi heq ht
    · cases ht
      exact h.next hi rfl rfl rfl h.readSet h.nodup h.conns h.bound fun _ _ _ hc => hc

end Invariant

/-! ## Answers -/

section Answers

variable {φ : Type} {server : ℕ} {others : Finset ℕ} {files : φ} {s s' : System φ} {e : Event φ}

theorem serve_concat {session session' session'' : Session φ} {xs : List (Exchange φ)}
    {answers : List Str} {x : Exchange φ} {answer : Str}
    (h : serve session xs = some (answers, session'))
    (hx : respond session' x.results x.outside x.segment = (some answer, session'')) :
    serve session (xs ++ [x]) = some (answers ++ [answer], session'') := by
  induction xs generalizing session answers with
  | nil =>
    cases h
    rw [List.nil_append, serve, hx]
    rfl
  | cons y ys ih =>
    rw [List.cons_append, serve]
    rw [serve] at h
    split at h
    · cases h
    · obtain ⟨⟨rest, last⟩, hrest, heq⟩ := Option.map_eq_some_iff.mp h
      cases heq
      rw [ih hrest]
      rfl

/-- What was sent are the answers to what was received, each to the connection it came from. -/
structure Served (files : φ) (s : System φ) : Prop where
  own : ∀ x ∈ s.received, ∃ c, x.polled = some c ∧ x.source = some c
  answers : ∃ answers, serve { files } s.received = some (answers, s.session) ∧
    s.sent = List.zipWith (fun x answer => (x.source, answer ++ Misc.ATParser.crlf)) s.received
      answers ∧ answers.length = s.received.length

theorem Served.step (h : Served files s) (hinv : Inv server others s)
    (hstep : loopStep server s e = .ok s') : Served files s' := by
  unfold loopStep at hstep
  cases hi : s.i with
  | none =>
    rw [hi] at hstep
    dsimp only [select] at hstep
    split at hstep
    · cases hstep
    · cases hstep
      exact ⟨h.own, h.answers⟩
  | some i =>
    rw [hi] at hstep
    dsimp only at hstep
    obtain ⟨t, ht, rfl⟩ := map_eq_ok.mp hstep
    unfold visit at ht
    split_ifs at ht with hready heq
    · unfold acceptClient at ht
      dsimp only at ht
      split_ifs at ht
      cases ht
      exact ⟨h.own, h.answers⟩
    · unfold serveClient at ht
      split_ifs at ht with hclosed
      · cases ht
        exact ⟨h.own, h.answers⟩
      split at ht
      · cases ht
      · rename_i answer session hrespond
        cases ht
        obtain ⟨c, hc, hpolled⟩ := (hinv.pending i hi i le_rfl hready).resolve_left heq
        obtain ⟨answers, hserve, hsent, hlen⟩ := h.answers
        refine ⟨fun x hx => ?_, answers ++ [answer], serve_concat hserve hrespond, ?_, ?_⟩
        · rcases List.mem_append.mp hx with hx | hx
          · exact h.own x hx
          · rw [List.mem_singleton.mp hx]
            exact ⟨c, hpolled, hc⟩
        · dsimp only
          rw [List.zipWith_append hlen.symm, hsent]
          rfl
        · simp [hlen]
    · cases ht
      exact ⟨h.own, h.answers⟩

/-- **Every segment is answered in its turn.** In every run of the loop, the sockets that are read
from are the listening socket and those of the open connections; what is read comes from the
connection that `select` found ready, also where descriptors are used again; and what was sent are
the answers of the functions to all segments in the order of their arrival, each to the connection
that the segment came from. -/
theorem loop_serves {events : List (Event φ)}
    (h : run (loopStep server) (entered files server others) events = .ok s) :
    (∀ i, s.readSet i = true ↔ i = server ∨ i ∈ s.sockets.conns) ∧
      s.clientSockets.Nodup ∧ (∀ i, i ∈ s.clientSockets ↔ i ∈ s.sockets.conns) ∧
      (∀ x ∈ s.received, ∃ c, x.polled = some c ∧ x.source = some c) ∧
      ∃ answers, serve { files } s.received = some (answers, s.session) ∧
        answers.length = s.received.length ∧
        s.sent = List.zipWith (fun x answer => (x.source, answer ++ Misc.ATParser.crlf)) s.received
          answers := by
  have hkeep := run_invariant (I := fun s => Inv server others s ∧ Served files s)
    (fun s s' e hs hstep => ⟨hs.1.step hstep, hs.2.step hs.1 hstep⟩)
    ⟨inv_entered files server others, fun x hx => absurd hx List.not_mem_nil, [], rfl, rfl, rfl⟩ h
  obtain ⟨hinv, hserved⟩ := hkeep
  obtain ⟨answers, hserve, hsent, hlen⟩ := hserved.answers
  refine ⟨fun i => ?_, hinv.nodup, hinv.conns, hserved.own, answers, hserve, hlen, hsent⟩
  rw [hinv.readSet, hinv.conns]

/-- One descriptor is ready, and this segment can be read. -/
def oneReady (fd : ℕ) (segment : Str) : Event Unit :=
  ⟨some fun i => decide (i = fd), true, segment, [], Turn.calm⟩

/-- A client connects in the first round and asks in the second one. -/
def twoRounds : List (Event Unit) :=
  List.replicate (1 + fdSetsize) (oneReady 3 []) ++
    List.replicate 6 (oneReady 4 (lit "AT+RTBUSY?" ++ Misc.ATParser.crlf))

theorem run_twoRounds : ∃ s, run (loopStep 3) (entered () 3 {0, 1, 2, 3}) twoRounds = .ok s := by
  have h : (run (loopStep 3) (entered () 3 {0, 1, 2, 3}) twoRounds).isOk = true := by
    decide +kernel
  cases hrun : run (loopStep 3) (entered () 3 {0, 1, 2, 3}) twoRounds with
  | ok s => exact ⟨s, rfl⟩
  | error stop =>
    rw [hrun] at h
    cases h

theorem loop_serves_twoRounds : ∃ s : System Unit,
    run (loopStep 3) (entered () 3 {0, 1, 2, 3}) twoRounds = .ok s ∧
      (∀ x ∈ s.received, ∃ c, x.polled = some c ∧ x.source = some c) ∧
      ∃ answers, serve { files := () } s.received = some (answers, s.session) := by
  obtain ⟨s, hs⟩ := run_twoRounds
  obtain ⟨-, -, -, hown, answers, hserve, -, -⟩ := loop_serves hs
  exact ⟨s, hs, hown, answers, hserve⟩

end Answers

/-! ## Room for connections -/

section Room

variable {φ : Type} {server : ℕ} {others : Finset ℕ} {files : φ} {s : System φ}

/-- The descriptors in use that fit into an `fd_set`. -/
theorem Inv.card_used (h : Inv server others s) :
    (s.sockets.used.filter (· < fdSetsize)).card =
      (s.sockets.others.filter (· < fdSetsize)).card + s.clientSockets.length := by
  have hkeys : s.sockets.conns.keys.toFinset = s.clientSockets.toFinset := by
    ext i
    rw [List.mem_toFinset, List.mem_toFinset, ← AList.mem_keys, h.conns]
  have hfits : s.clientSockets.toFinset.filter (· < fdSetsize) = s.clientSockets.toFinset := by
    rw [Finset.filter_eq_self]
    exact fun i hi => h.bound i (List.mem_toFinset.mp hi)
  have hapart : Disjoint (s.sockets.others.filter (· < fdSetsize)) s.clientSockets.toFinset := by
    rw [Finset.disjoint_right]
    intro i hi hother
    exact s.sockets.apart i ((h.conns i).mp (List.mem_toFinset.mp hi))
      (Finset.mem_filter.mp hother).1
  rw [Sockets.used, hkeys, Finset.filter_union, hfits, Finset.card_union_of_disjoint hapart,
    List.toFinset_card_of_nodup h.nodup]

/-- No step but the visit of the listening socket runs over an `fd_set`. -/
theorem loopStep_overflow {e : Event φ} : loopStep server s e = .error .overflow ↔
    s.i = some server ∧ s.tempSet server = true ∧ e.accepted = true ∧
      fdSetsize ≤ lowest s.sockets.used := by
  have haccept : acceptClient s e = .error .overflow ↔
      e.accepted = true ∧ fdSetsize ≤ lowest s.sockets.used := by
    unfold acceptClient
    dsimp only
    split_ifs with hrefused hfull <;> simp_all
  have hserve (i : ℕ) : serveClient s i e ≠ .error .overflow := by
    unfold serveClient
    split_ifs
    · exact nofun
    · split
      · exact nofun
      · exact nofun
  unfold loopStep
  cases hi : s.i with
  | none =>
    dsimp only [select]
    cases e.ready with
    | none => simp
    | some ready => simp
  | some i =>
    dsimp only
    rw [map_eq_error, visit, Option.some_inj]
    by_cases heq : i = server
    · rw [heq, if_pos rfl, and_iff_right rfl]
      by_cases hready : s.tempSet server = true
      · rw [if_pos hready, haccept, and_iff_right hready]
      · rw [if_neg hready]
        simp [hready]
    · rw [if_neg heq]
      refine iff_of_false ?_ fun h => heq h.1
      split_ifs
      · exact hserve i
      · exact nofun

/-- **When a connection does not fit into an `fd_set`.** After every run of the loop, the next step
stores a bit outside exactly if the listening socket is visited and ready, `accept` succeeds, and the
open connections, with the descriptors of the process otherwise, take all of the `fd_set`. -/
theorem overflow_iff {events : List (Event φ)}
    (h : run (loopStep server) (entered files server others) events = .ok s) (e : Event φ) :
    loopStep server s e = .error .overflow ↔
      s.i = some server ∧ s.tempSet server = true ∧ e.accepted = true ∧
        fdSetsize ≤ (others.filter (· < fdSetsize)).card + s.clientSockets.length := by
  have hinv := run_invariant (I := Inv server others) (fun s s' e hs hstep => hs.step hstep)
    (inv_entered files server others) h
  rw [loopStep_overflow, ← hinv.others, ← hinv.card_used, ← not_lt, ← not_lt, lowest_lt_iff]

theorem overflow_iff_twoRounds : ∃ s : System Unit,
    run (loopStep 3) (entered () 3 {0, 1, 2, 3}) twoRounds = .ok s ∧
      (loopStep 3 s (oneReady 3 []) = .error .overflow ↔
        s.i = some 3 ∧ s.tempSet 3 = true ∧ (oneReady 3 []).accepted = true ∧
          fdSetsize ≤ (Finset.filter (· < fdSetsize) {0, 1, 2, 3}).card +
            s.clientSockets.length) := by
  obtain ⟨s, hs⟩ := run_twoRounds
  exact ⟨s, hs, overflow_iff hs (oneReady 3 [])⟩

end Room

end Jxtd.Router.Loop
