import Mathlib.Algebra.Order.Group.Multiset
import Mathlib.Tactic.Abel
import Jxtd.Lib.Progress
import Jxtd.Computation.Drccp.Closed
import Jxtd.Computation.Drccp.Counts

/-!
# Every request is answered

What a whole run of a closed cluster does with the requests of its clients.

* `Thread.owed`: the request that a thread still has to answer; `Advance.owed`: no step loses it.
* `Step.holds`: a step keeps the cluster closed and every request accounted for.
* **`knows_members_only`**: no node ever learns of a stranger or sends it a request.
* **`all_answered`**: where the callbacks find their nodes, every execution ends with all requests
  answered.
-/

namespace Jxtd.Computation.Drccp

open Lib Std Relation

variable {φ : Type} {team : Team}

/-! ## Clusters -/

section Cluster

/-- Where a request was sent, and the request. -/
def Frame.key (frame : Frame φ) : DrccpEndpoint × Message φ := (frame.node, frame.taskCtx.req)

def Front.key? : Front φ → Option (DrccpEndpoint × Message φ)
  | .request dest req => some (dest, req)
  | .working frame => some frame.key
  | .reply _ _ => none

/-- The request of the client, while it has no answer. -/
def Thread.origin (thread : Thread φ) : Option (DrccpEndpoint × Message φ) :=
  (thread.front.key?.toList ++ thread.waiting.map Frame.key).getLast?

/-- The same, when the cluster is to answer it. -/
def Thread.owed (tag : Str) (thread : Thread φ) : Option (DrccpEndpoint × Message φ) :=
  thread.origin.filter fun x => Accepted tag x.2

/-- The requests that the cluster is to answer or has answered. -/
def Cluster.accounted (tag : Str) (s : Cluster φ) : Multiset (DrccpEndpoint × Message φ) :=
  ↑(s.threads.filterMap (Thread.owed tag)) + ↑(s.handled.map Frame.key)

/-- A cluster whose nodes are a team, and what is on its way in it. -/
structure Team.Holds (team : Team) (s : Cluster φ) : Prop where
  closed : team.Closed s.nodes
  threads : ∀ thread ∈ s.threads, team.Runs thread
  handled : ∀ frame ∈ s.handled, frame.node ∈ team.members ∧
    team.Served frame.taskCtx.req frame.taskCtx.resp

theorem Team.Holds.injected {nodes : Nodes φ} (hclosed : team.Closed nodes)
    {requests : List (DrccpEndpoint × Message φ)}
    (hrequests : ∀ x ∈ requests, x.1 ∈ team.members ∧ team.Names x.2) :
    team.Holds (.injected nodes requests) where
  closed := hclosed
  threads thread hthread := by
    obtain ⟨x, hx, rfl⟩ := List.mem_map.mp hthread
    exact ⟨(hrequests x hx).1, (hrequests x hx).2, trivial⟩
  handled _ hframe := absurd hframe List.not_mem_nil

theorem Cluster.accounted_injected (tag : Str) (nodes : Nodes φ)
    (requests : List (DrccpEndpoint × Message φ)) :
    (Cluster.injected nodes requests).accounted tag = ↑(requests.filter (Accepted tag ·.2)) := by
  have howed : (Thread.owed tag ∘ fun x : DrccpEndpoint × Message φ => ⟨.request x.1 x.2, []⟩) =
      Option.guard fun x => Accepted tag x.2 := by
    funext x
    rw [Option.guard_eq_ite]
    rfl
  rw [Cluster.accounted, Cluster.injected, List.filterMap_map, howed, List.filterMap_eq_filter]
  exact add_zero _

theorem Cluster.accounted_mk (tag : Str) (nodes : Nodes φ) (before after : List (Thread φ))
    (thread : Option (Thread φ)) (handled : List (Frame φ)) :
    (Cluster.mk nodes (before ++ (thread.toList ++ after)) handled).accounted tag =
      ↑((before ++ after).filterMap (Thread.owed tag)) +
        (↑(thread.bind (Thread.owed tag)).toList + ↑(handled.map Frame.key)) := by
  have htoList : thread.toList.filterMap (Thread.owed tag) =
      (thread.bind (Thread.owed tag)).toList := by
    cases thread with
    | none => rfl
    | some thread =>
      rw [Option.toList_some, List.filterMap_cons, List.filterMap_nil, Option.bind_some]
      cases thread.owed tag <;> rfl
  rw [Cluster.accounted, List.filterMap_append, List.filterMap_append, List.filterMap_append,
    htoList, ← Multiset.coe_add, ← Multiset.coe_add, ← Multiset.coe_add]
  abel

variable [FloatShare φ] {finds : Frame φ → Bool}

section Owed

variable {nodes nodes' : Nodes φ} {thread : Thread φ} {thread' : Option (Thread φ)}
  {done : List (Frame φ)}

/-- **A request that the cluster is to answer** stays so until it is answered. -/
theorem Advance.owed (h : Advance finds nodes thread nodes' thread' done)
    (hclosed : team.Closed nodes) (hruns : team.Runs thread) :
    thread.owed team.tag = none ∨ thread'.bind (Thread.owed team.tag) = thread.owed team.tag ∨
      ∃ frame, thread.owed team.tag = some frame.key ∧ done = [frame] := by
  cases h with
  | deliver | stop | forwarded | updated | answered => exact .inr (.inl rfl)
  | forward | update =>
    exact .inr (.inl (by simp [Thread.owed, Thread.origin, Front.key?, Frame.send, Frame.key]))
  | @ignore dest req server out hserver hout hresp =>
    obtain ⟨out', hout', hhandles⟩ := (hclosed.fit _ _ hserver).2.process hruns.2.1
    obtain rfl := Except.ok.inj (hout'.symm.trans hout)
    refine .inl (Option.filter_eq_none_iff.mpr fun x hx => ?_)
    cases hx
    exact fun haccepted => hhandles.resp (of_decide_eq_true haccepted) hresp
  | outside hdest resp =>
    obtain ⟨server, hserver⟩ := hclosed.member _ hruns.1
    rw [hdest] at hserver
    cases hserver
  | @finish frame waiting hseries =>
    cases waiting with
    | cons next waiting => exact .inr (.inl (by simp [Thread.owed, Thread.origin, Front.key?]))
    | nil =>
      by_cases haccepted : Accepted team.tag frame.taskCtx.req
      · exact .inr (.inr ⟨frame, Option.filter_some_pos (decide_eq_true haccepted), rfl⟩)
      · exact .inl (Option.filter_some_neg (decide_eq_false haccepted))

end Owed

variable {s s' : Cluster φ}

/-- **Every step** keeps the cluster closed and loses no request. -/
theorem Step.holds (h : Step finds s s') (hs : team.Holds s) :
    team.Holds s' ∧ s.accounted team.tag ≤ s'.accounted team.tag := by
  obtain ⟨before, after, handled, hadvance⟩ := h
  rename_i nodes nodes' thread thread' done
  obtain ⟨hclosed, hthreads, hhandled⟩ := hs
  have hruns := hthreads _ (List.mem_append_right _ List.mem_cons_self)
  obtain ⟨hclosed', hthread', hdone⟩ := hadvance.runs hclosed hruns
  refine ⟨⟨hclosed', fun t ht => ?_, fun frame hframe => ?_⟩, ?_⟩
  · simp only [List.mem_append, Option.mem_toList] at ht
    rcases ht with hmem | hmem | hmem
    · exact hthreads t (List.mem_append_left _ hmem)
    · exact hthread' t hmem
    · exact hthreads t (List.mem_append_right _ (List.mem_cons_of_mem _ hmem))
  · rcases List.mem_append.mp hframe with hmem | hmem
    · exact hhandled frame hmem
    · exact hdone frame hmem
  · rw [Cluster.accounted_mk team.tag nodes' before after thread']
    refine (Cluster.accounted_mk team.tag nodes before after (some thread) handled).trans_le ?_
    rw [List.map_append, ← Multiset.coe_add, Option.bind_some]
    refine add_le_add le_rfl ?_
    rcases hadvance.owed hclosed hruns with hnone | hstays | ⟨frame, hframe, rfl⟩
    · rw [hnone, Option.toList_none]
      refine (zero_add _).trans_le ?_
      rw [add_left_comm]
      exact Multiset.le_add_right _ _
    · rw [hstays, ← add_assoc]
      exact Multiset.le_add_right _ _
    · rw [hframe, add_comm]
      exact Multiset.le_add_left _ _

theorem Team.Holds.of_reaches {s s' : Cluster φ} (hreach : ReflTransGen (Step finds) s s')
    (hs : team.Holds s) : team.Holds s' ∧ s.accounted team.tag ≤ s'.accounted team.tag := by
  induction hreach with
  | refl => exact ⟨hs, le_rfl⟩
  | tail _ hstep ih =>
    obtain ⟨hholds, hle⟩ := hstep.holds ih.1
    exact ⟨hholds, ih.2.trans hle⟩

/-- **A step goes on** while anything is on its way. -/
theorem Team.Holds.exists_step (hfinds : ∀ frame, finds frame = true) {s : Cluster φ}
    (hs : team.Holds s) (hthreads : ¬ s.threads = []) : ∃ s', Step finds s s' := by
  obtain ⟨nodes, threads, handled⟩ := s
  obtain ⟨thread, threads, rfl⟩ := List.exists_cons_of_ne_nil hthreads
  obtain ⟨nodes', thread', done, hadvance⟩ :=
    (hs.threads thread List.mem_cons_self).advances hfinds hs.closed
  exact ⟨_, .mk [] threads handled hadvance⟩

variable {nodes : Nodes φ} {requests : List (DrccpEndpoint × Message φ)}

/-- **A closed cluster stays closed.** Where the nodes share a tag, have a payload callback, know
themselves and each other and nobody else, and no client names a stranger, then in every order of the
steps, whichever callbacks find their nodes, no node ever learns of a stranger and no request is sent
to one. -/
theorem knows_members_only (hclosed : team.Closed nodes)
    (hrequests : ∀ x ∈ requests, x.1 ∈ team.members ∧ team.Names x.2) {s : Cluster φ}
    (hreach : ReflTransGen (Step finds) (.injected nodes requests) s) :
    (∀ e server, s.nodes e = some server → ∀ e' ∈ keySet server.serverCtx.shares,
      e' ∈ team.members) ∧
    ∀ thread ∈ s.threads, ∀ dest req, thread.front = .request dest req → dest ∈ team.members := by
  obtain ⟨hholds, -⟩ := (Team.Holds.injected hclosed hrequests).of_reaches hreach
  refine ⟨fun e server hserver => (hholds.closed.fit e server hserver).2.known,
    fun thread hthread dest req hfront => ?_⟩
  have hruns := hholds.threads thread hthread
  rw [Team.Runs, hfront] at hruns
  exact hruns.1

/-- **Every request is answered.** In a closed cluster in which the callbacks find their nodes, every
execution can be continued until nothing is on its way, and it stops nowhere else. By then every
request that the cluster accepts has been answered, as often as it was sent, and a submission with the
result that the callback of a member gives for its payload. -/
theorem all_answered (hfinds : ∀ frame, finds frame = true) (hclosed : team.Closed nodes)
    (hrequests : ∀ x ∈ requests, x.1 ∈ team.members ∧ team.Names x.2) {s : Cluster φ}
    (hreach : ReflTransGen (Step finds) (.injected nodes requests) s) :
    (∃ s', ReflTransGen (Step finds) s s' ∧ s'.threads = []) ∧
    ∀ s', ReflTransGen (Step finds) s s' → Halted (Step finds) s' → s'.threads = [] ∧
      ((requests.filter (Accepted team.tag ·.2)).Subperm (s'.handled.map Frame.key)) ∧
      ∀ frame ∈ s'.handled, team.Served frame.taskCtx.req frame.taskCtx.resp := by
  obtain ⟨hholds, hle⟩ := (Team.Holds.injected hclosed hrequests).of_reaches hreach
  obtain ⟨hends, hstops⟩ := halts_in (wellFounded_step finds)
    (fun _ _ hs hstep => (Step.holds hstep hs).1) (fun _ hs hnot => hs.exists_step hfinds hnot) hholds
  refine ⟨hends, fun s' hreach' hhalted => ?_⟩
  have hthreads := hstops s' hreach' hhalted
  obtain ⟨hholds', hle'⟩ := hholds.of_reaches hreach'
  refine ⟨hthreads, ?_, fun frame hframe => (hholds'.handled frame hframe).2⟩
  have haccounted := hle.trans hle'
  rw [Cluster.accounted_injected, Cluster.accounted, hthreads, List.filterMap_nil] at haccounted
  exact Multiset.coe_le.mp (haccounted.trans_eq (zero_add _))

/-! ## Two nodes -/

/-- The nodes at `a:1` and `b:2`. -/
def pair : Team := ⟨lit "pair", {(lit "a", 1), (lit "b", 2)}, fun _ => id⟩

theorem keySet_pairNode (e : DrccpEndpoint) :
    keySet (pairNode e).serverCtx.shares = {(lit "a", 1), (lit "b", 2)} := by
  change keySet (ofInserts [((lit "a", 1), (1 : ℚ)), ((lit "b", 2), 1)]) = _
  decide

theorem closed_pair : pair.Closed pairNodes where
  member e he := ⟨pairNode e, if_pos he⟩
  fit e server hserver := by
    rw [pairNodes] at hserver
    split_ifs at hserver with he
    cases hserver
    refine ⟨he, rfl, ?_, fun e' he' => ?_, rfl⟩
    · rw [keySet_pairNode, Finset.mem_insert, Finset.mem_singleton]
      exact he
    · rwa [keySet_pairNode, Finset.mem_insert, Finset.mem_singleton] at he'

theorem names_pair : ∀ x ∈ pairRequests, x.1 ∈ pair.members ∧ pair.Names x.2 := by
  intro x hx
  rw [List.mem_singleton.mp hx]
  exact ⟨.inl rfl, MessageType.noConfusion, fun _ hmem => absurd hmem List.not_mem_nil⟩

/-- The submission has been forwarded, and the node tells its neighbour of the forward. -/
theorem knows_members_only_pair : ∃ s thread,
    ReflTransGen (Step fun _ => true) (.injected pairNodes pairRequests) s ∧ s.threads = [thread] ∧
      thread.front = .request (lit "b", 2) (updateRequest (pairNode (lit "a", 1)).serverCtx
        (lit "b", 2)) ∧
      (∀ e server, s.nodes e = some server → ∀ e' ∈ keySet server.serverCtx.shares,
        e' ∈ pair.members) ∧
      ∀ thread ∈ s.threads, ∀ dest req, thread.front = .request dest req → dest ∈ pair.members := by
  obtain ⟨s, thread, hreach, hthreads, hfront⟩ := reaches_told
  exact ⟨s, thread, hreach, hthreads, hfront, knows_members_only closed_pair names_pair hreach⟩

theorem all_answered_pair :
    (∃ s, ReflTransGen (Step fun _ => true) (.injected pairNodes pairRequests) s ∧ s.threads = []) ∧
    ∀ s, ReflTransGen (Step fun _ => true) (.injected pairNodes pairRequests) s →
      Halted (Step fun _ => true) s → s.threads = [] ∧
      ((pairRequests.filter (Accepted pair.tag ·.2)).Subperm (s.handled.map Frame.key)) ∧
      ∀ frame ∈ s.handled, pair.Served frame.taskCtx.req frame.taskCtx.resp :=
  all_answered (fun _ => rfl) closed_pair names_pair .refl

end Cluster

end Jxtd.Computation.Drccp
