import Mathlib.Logic.Relation
import Jxtd.Computation.Drccp.Traffic

/-!
# What a request causes

* `Frame.forwardsSent`, `Frame.told`: the `FORWARD` and the `HELLO` requests of a series.
* `Counted`: what has been sent and what is left to send, for a series at work.
* `Cluster.Counts`: so it is for all series of a cluster; `Step.counts`: every step keeps it.
* **`no_message_storm`**: every execution ends, a `LOCAL` that is accepted causes one `FORWARD`, and
  every request at most one `HELLO` for each other entry of the table.
* `local_ignored`: a `LOCAL` of another version causes none.
-/

namespace Jxtd.Computation.Drccp

open Lib Std

variable {φ : Type}

/-! ## One series -/

/-- How many `FORWARD` requests a series has sent. -/
def Frame.forwardsSent (frame : Frame φ) : ℕ :=
  frame.caused.countP fun sent => sent.2.type = .FORWARD

/-- Where a series has sent `HELLO` requests. -/
def Frame.told (frame : Frame φ) : List DrccpEndpoint :=
  (frame.caused.filter fun sent => sent.2.type = .HELLO).map Prod.fst

def SeriesTask.isForward : SeriesTask φ → Bool
  | .forward => true
  | .update _ _ => false

/-- Where an update task sends its request. -/
def SeriesTask.neigh? : SeriesTask φ → Option DrccpEndpoint
  | .forward => none
  | .update neigh _ => some neigh

/-- How many `FORWARD` requests are left. -/
def Frame.forwardsLeft (frame : Frame φ) : ℕ :=
  if frame.taskCtx.forwardSuccess then 0 else frame.series.countP SeriesTask.isForward

/-- What a series at work has sent and has left. -/
structure Counted (tag : Str) (frame : Frame φ) : Prop where
  nodup : frame.others.Nodup
  kinds : ∀ sent ∈ frame.caused, sent.2.type = .FORWARD ∨ sent.2.type = .HELLO
  hello : ∀ neigh req, .update neigh req ∈ frame.series → req.type = .HELLO
  told : frame.told ++ frame.series.filterMap SeriesTask.neigh? =
    if tells tag frame.taskCtx.req then frame.others else []
  forwards : frame.forwardsSent + frame.forwardsLeft =
    if Drccp.forwards tag frame.taskCtx.req then 1 else 0
  submitted : .forward ∈ frame.series → Drccp.forwards tag frame.taskCtx.req
  refused : frame.taskCtx.req.version ≠ 3 → frame.taskCtx.resp.type = .VERSION

section Counted

variable {tag : Str} {frame : Frame φ} {rest : List (SeriesTask φ)} {target : DrccpEndpoint}
  {req resp : Message φ}

theorem forwardsSent_send (frame : Frame φ) (target : DrccpEndpoint) (req : Message φ) :
    (frame.send target req).forwardsSent =
      frame.forwardsSent + if req.type = .FORWARD then 1 else 0 := by
  simp [Frame.forwardsSent, Frame.send, List.countP_append, List.countP_cons]

theorem told_send (frame : Frame φ) (target : DrccpEndpoint) (req : Message φ) :
    (frame.send target req).told =
      frame.told ++ if req.type = .HELLO then [target] else [] := by
  rw [Frame.told, Frame.send, List.filter_append, List.map_append, Frame.told]
  split_ifs with h
  · simp [h]
  · simp [h]

theorem kinds_send (h : ∀ sent ∈ frame.caused, sent.2.type = .FORWARD ∨ sent.2.type = .HELLO)
    (hreq : req.type = .FORWARD ∨ req.type = .HELLO) :
    ∀ sent ∈ (frame.send target req).caused, sent.2.type = .FORWARD ∨ sent.2.type = .HELLO := by
  intro sent hsent
  rcases List.mem_append.mp hsent with hold | hnew
  · exact h sent hold
  · rw [List.mem_singleton.mp hnew]
    exact hreq

/-- **The repeater sends** its only request. -/
theorem Counted.forward (h : Counted tag frame) (hseries : frame.series = .forward :: rest)
    (hsuccess : frame.taskCtx.forwardSuccess = false) (htype : req.type = .FORWARD) :
    Counted tag (frame.send target req).next := by
  have hsend : (frame.send target req).series = .forward :: rest := hseries
  rw [next_forward hsend]
  refine ⟨h.nodup, kinds_send h.kinds (.inl htype), h.hello, ?_, ?_, h.submitted, h.refused⟩
  · have htold := told_send frame target req
    rw [if_neg (by simp [htype]), List.append_nil] at htold
    exact (congrArg (· ++ _) htold).trans h.told
  · have hsent := forwardsSent_send frame target req
    have hforwards := h.forwards
    rw [if_pos htype] at hsent
    rw [Frame.forwardsLeft, hsuccess, if_neg Bool.false_ne_true, hseries,
      List.countP_cons_of_pos rfl] at hforwards
    have hplan : (if Drccp.forwards tag frame.taskCtx.req then 1 else 0) ≤ 1 := by
      split_ifs
      · exact le_rfl
      · exact Nat.zero_le 1
    change (frame.send target req).forwardsSent + 0 =
      if Drccp.forwards tag frame.taskCtx.req then 1 else 0
    omega

/-- The repeater ends. -/
theorem Counted.stop (h : Counted tag frame) (hseries : frame.series = .forward :: rest)
    (hsuccess : frame.taskCtx.forwardSuccess = true) : Counted tag (frame.tasks rest) := by
  refine ⟨h.nodup, h.kinds, fun neigh req hmem => h.hello neigh req ?_, ?_, ?_,
    fun hmem => h.submitted (hseries ▸ List.mem_cons_of_mem _ hmem), h.refused⟩
  · rw [hseries]
    exact List.mem_cons_of_mem _ hmem
  · have htold := h.told
    rw [hseries] at htold
    exact htold
  · have hforwards := h.forwards
    rw [Frame.forwardsLeft, if_pos hsuccess] at hforwards
    rw [Frame.forwardsLeft, if_pos (by exact hsuccess)]
    exact hforwards

/-- An update task sends. -/
theorem Counted.update (h : Counted tag frame) (hseries : frame.series = .update target req :: rest) :
    Counted tag (frame.send target req).next := by
  have hsend : (frame.send target req).series = .update target req :: rest := hseries
  have htype : req.type = .HELLO := h.hello target req (hseries ▸ List.mem_cons_self)
  rw [next_update hsend]
  refine ⟨h.nodup, kinds_send h.kinds (.inr htype), fun neigh req hmem => h.hello neigh req ?_,
    ?_, ?_, fun hmem => h.submitted (hseries ▸ List.mem_cons_of_mem _ hmem), h.refused⟩
  · rw [hseries]
    exact List.mem_cons_of_mem _ hmem
  · have htold := told_send frame target req
    have hold := h.told
    rw [if_pos htype] at htold
    have hcons : List.filterMap SeriesTask.neigh? (.update target req :: rest) =
        target :: rest.filterMap SeriesTask.neigh? := rfl
    rw [hseries, hcons] at hold
    change (frame.send target req).told ++ rest.filterMap SeriesTask.neigh? = _
    rw [htold, List.append_assoc]
    exact hold
  · have hsent := forwardsSent_send frame target req
    have hforwards := h.forwards
    rw [if_neg (by simp [htype])] at hsent
    rw [Frame.forwardsLeft, hseries, List.countP_cons_of_neg (by simp [SeriesTask.isForward])]
      at hforwards
    change (frame.send target req).forwardsSent + _ = _
    rw [hsent]
    exact hforwards

/-- The answer to a forward comes. -/
theorem Counted.forwarded (h : Counted tag frame.next) (hseries : frame.series = .forward :: rest) :
    Counted tag { frame with taskCtx := forwardDone frame.taskCtx (some resp) } := by
  rw [next_forward hseries] at h
  have hsubmitted : Drccp.forwards tag frame.taskCtx.req :=
    h.submitted (hseries ▸ List.mem_cons_self)
  exact ⟨h.nodup, h.kinds, h.hello, h.told, h.forwards, h.submitted,
    fun hversion => absurd hsubmitted.1.2.2 hversion⟩

/-- **A request of another version** is answered with `VERSION`. -/
theorem process_refused [FloatShare φ] {server : DrccpServer φ} {out : Processed φ}
    (h : process server req = .ok out) (hresp : out.resp = some resp) (hversion : req.version ≠ 3) :
    resp.type = .VERSION := by
  rw [process] at h
  split_ifs at h
  · cases h
    cases hresp
  · cases h
    cases hresp
  · cases h
    cases hresp
    rfl

theorem nodup_neighbours (ctx : DrccpServerContext φ) : (neighbours ctx).Nodup := by
  refine List.Nodup.filter _ ?_
  rw [TreeMap.map_fst_toList_eq_keys]
  exact TreeMap.nodup_keys

/-- **A request that is handled.** -/
theorem counted_deliver [FloatShare φ] {server : DrccpServer φ} {out : Processed φ}
    {dest : DrccpEndpoint} (htag : server.serverCtx.clusterTag = tag)
    (h : process server req = .ok out) (hresp : out.resp = some resp) :
    Counted tag ⟨dest, ⟨req, resp, false⟩, out.series, neighbours out.server.serverCtx, []⟩ := by
  obtain ⟨-, hseries⟩ := process_series h
  rw [htag] at hseries
  have htargets : (updates out.server.serverCtx).filterMap SeriesTask.neigh? =
      neighbours out.server.serverCtx := by
    rw [updates, List.filterMap_map]
    exact List.filterMap_some
  have hcount : (updates out.server.serverCtx).countP SeriesTask.isForward = 0 := by
    rw [updates, List.countP_map]
    exact List.countP_eq_zero.mpr fun _ _ => Bool.false_ne_true
  refine ⟨nodup_neighbours _, fun sent hsent => absurd hsent List.not_mem_nil,
    fun neigh sent hmem => ?_, ?_, ?_, fun hmem => ?_, process_refused h hresp⟩
  · change SeriesTask.update neigh sent ∈ out.series at hmem
    rw [hseries, List.mem_append] at hmem
    rcases hmem with hmem | hmem
    · split_ifs at hmem
      · exact absurd (List.mem_singleton.mp hmem) (by simp)
      · cases hmem
    · split_ifs at hmem
      · obtain ⟨e, -, he⟩ := List.mem_map.mp hmem
        cases he
        rfl
      · cases hmem
  · change [] ++ out.series.filterMap SeriesTask.neigh? =
      if tells tag req then neighbours out.server.serverCtx else []
    have hfront : (if Drccp.forwards tag req then ([.forward] : List (SeriesTask φ)) else []).filterMap
        SeriesTask.neigh? = [] := by
      split_ifs <;> rfl
    rw [List.nil_append, hseries, List.filterMap_append, hfront, List.nil_append]
    split_ifs
    · exact htargets
    · rfl
  · change 0 + out.series.countP SeriesTask.isForward = if Drccp.forwards tag req then 1 else 0
    have hback : (if tells tag req then updates out.server.serverCtx else []).countP
        SeriesTask.isForward = 0 := by
      split_ifs
      · exact hcount
      · rfl
    rw [Nat.zero_add, hseries, List.countP_append, hback]
    split_ifs <;> rfl
  · change SeriesTask.forward ∈ out.series at hmem
    by_contra hnot
    rw [hseries, if_neg hnot, List.nil_append] at hmem
    split_ifs at hmem
    · obtain ⟨e, -, he⟩ := List.mem_map.mp hmem
      cases he
    · cases hmem

end Counted

/-! ## The cluster -/

/-- The series of a thread: that at work, and those that wait as they are after the answer. -/
structure Thread.Counts (tag : Str) (thread : Thread φ) : Prop where
  front : ∀ frame, thread.front = .working frame → Counted tag frame
  waiting : ∀ frame ∈ thread.waiting, Counted tag frame.next

/-- What holds in every state of a cluster with one tag. -/
structure Cluster.Counts (tag : Str) (s : Cluster φ) : Prop where
  tags : ∀ e server, s.nodes e = some server → server.serverCtx.clusterTag = tag
  threads : ∀ thread ∈ s.threads, thread.Counts tag
  handled : ∀ frame ∈ s.handled, Counted tag frame ∧ frame.series = []

theorem Thread.Counts.of_request {tag : Str} {waiting : List (Frame φ)}
    (h : ∀ frame ∈ waiting, Counted tag frame.next) (dest : DrccpEndpoint) (req : Message φ) :
    Thread.Counts tag ⟨.request dest req, waiting⟩ := by
  refine ⟨fun frame hfront => ?_, h⟩
  cases hfront

theorem Thread.Counts.of_reply {tag : Str} {waiting : List (Frame φ)}
    (h : ∀ frame ∈ waiting, Counted tag frame.next) (source : DrccpEndpoint) (resp : Message φ) :
    Thread.Counts tag ⟨.reply source resp, waiting⟩ := by
  refine ⟨fun frame hfront => ?_, h⟩
  cases hfront

section Cluster

variable [FloatShare φ] {finds : Frame φ → Bool} {tag : Str} {s s' : Cluster φ}
  {nodes nodes' : Nodes φ} {thread : Thread φ} {thread' : Option (Thread φ)} {done : List (Frame φ)}

omit [FloatShare φ] in
theorem tags_update (h : ∀ e server, nodes e = some server → server.serverCtx.clusterTag = tag)
    (dest : DrccpEndpoint) {server : DrccpServer φ} (hserver : server.serverCtx.clusterTag = tag) :
    ∀ e server', Function.update nodes dest (some server) e = some server' →
      server'.serverCtx.clusterTag = tag := by
  intro e server' he
  by_cases heq : e = dest
  · rw [heq, Function.update_self] at he
    cases he
    exact hserver
  · rw [Function.update_of_ne heq] at he
    exact h e server' he

/-- **Everything that happens to a thread** keeps the counts. -/
theorem Advance.counts (h : Advance finds nodes thread nodes' thread' done)
    (htags : ∀ e server, nodes e = some server → server.serverCtx.clusterTag = tag)
    (hthread : thread.Counts tag) :
    (∀ e server, nodes' e = some server → server.serverCtx.clusterTag = tag) ∧
      (∀ t ∈ thread', Thread.Counts tag t) ∧
      ∀ frame ∈ done, Counted tag frame ∧ frame.series = [] := by
  have hnone : ∀ frame ∈ ([] : List (Frame φ)), Counted tag frame ∧ frame.series = [] :=
    fun _ hmem => absurd hmem List.not_mem_nil
  cases h with
  | deliver hserver hout hresp =>
    have htag := htags _ _ hserver
    refine ⟨tags_update htags _ ((process_series hout).1.trans htag), ?_, hnone⟩
    rintro t ⟨⟩
    refine ⟨?_, hthread.waiting⟩
    rintro frame ⟨⟩
    exact counted_deliver htag hout hresp
  | ignore hserver hout hresp =>
    have htag := htags _ _ hserver
    refine ⟨tags_update htags _ ((process_series hout).1.trans htag), ?_, hnone⟩
    rintro t ⟨⟩
  | outside hdest resp =>
    refine ⟨htags, ?_, hnone⟩
    rintro t ⟨⟩
    exact .of_reply hthread.waiting _ _
  | forward hseries hserver hrepeater =>
    obtain ⟨hsuccess, htype⟩ := forwardTaskRepeater_some hrepeater
    refine ⟨htags, ?_, hnone⟩
    rintro t ⟨⟩
    refine .of_request (List.forall_mem_cons.mpr ⟨?_, hthread.waiting⟩) _ _
    exact (hthread.front _ rfl).forward hseries hsuccess htype
  | stop hseries hserver hrepeater =>
    refine ⟨htags, ?_, hnone⟩
    rintro t ⟨⟩
    refine ⟨?_, hthread.waiting⟩
    rintro frame ⟨⟩
    exact (hthread.front _ rfl).stop hseries (forwardTaskRepeater_none hrepeater)
  | update hseries =>
    refine ⟨htags, ?_, hnone⟩
    rintro t ⟨⟩
    refine .of_request (List.forall_mem_cons.mpr ⟨?_, hthread.waiting⟩) _ _
    exact (hthread.front _ rfl).update hseries
  | forwarded hseries hserver =>
    obtain ⟨hframe, hwaiting⟩ := List.forall_mem_cons.mp hthread.waiting
    have htag := htags _ _ hserver
    refine ⟨tags_update htags _ htag, ?_, hnone⟩
    rintro t ⟨⟩
    refine ⟨?_, hwaiting⟩
    rintro frame ⟨⟩
    exact hframe.forwarded hseries
  | updated hseries hserver hctx =>
    obtain ⟨hframe, hwaiting⟩ := List.forall_mem_cons.mp hthread.waiting
    obtain ⟨shares, rfl, -⟩ := updated_ok hctx
    have htag := htags _ _ hserver
    refine ⟨tags_update htags _ htag, ?_, hnone⟩
    rintro t ⟨⟩
    refine ⟨?_, hwaiting⟩
    rintro frame ⟨⟩
    rwa [next_update hseries] at hframe
  | finish hseries =>
    refine ⟨htags, ?_, fun frame hmem => ?_⟩
    · rintro t ⟨⟩
      exact .of_reply hthread.waiting _ _
    · rw [List.mem_singleton.mp hmem]
      exact ⟨hthread.front _ rfl, hseries⟩
  | answered =>
    refine ⟨htags, ?_, hnone⟩
    rintro t ⟨⟩

theorem Step.counts (h : Step finds s s') (hs : s.Counts tag) : s'.Counts tag := by
  obtain ⟨before, after, handled, hadvance⟩ := h
  obtain ⟨htags, hthreads, hhandled⟩ := hs
  obtain ⟨hbefore, hthread, hafter⟩ := by
    simpa only [List.forall_mem_append, List.forall_mem_cons] using hthreads
  obtain ⟨htags', hthread', hdone⟩ := hadvance.counts htags hthread
  refine ⟨htags', ?_, ?_⟩
  · rw [List.forall_mem_append, List.forall_mem_append]
    exact ⟨hbefore, fun t ht => hthread' t (Option.mem_toList.mp ht), hafter⟩
  · exact List.forall_mem_append.mpr ⟨hhandled, hdone⟩

omit [FloatShare φ] in
theorem counts_injected
    (htags : ∀ e server, nodes e = some server → server.serverCtx.clusterTag = tag)
    (requests : List (DrccpEndpoint × Message φ)) : (Cluster.injected nodes requests).Counts tag := by
  refine ⟨htags, fun thread hthread => ?_, fun _ hmem => absurd hmem List.not_mem_nil⟩
  obtain ⟨x, -, rfl⟩ := List.mem_map.mp hthread
  exact .of_request (fun _ hmem => absurd hmem List.not_mem_nil) _ _

theorem Cluster.Counts.of_reaches (hreach : Relation.ReflTransGen (Step finds) s s') (h : s.Counts tag) :
    s'.Counts tag := by
  induction hreach with
  | refl => exact h
  | tail _ hstep ih => exact hstep.counts ih

end Cluster

/-! ## No storm -/

/-- The series that are at work or wait. -/
def Thread.frames (thread : Thread φ) : List (Frame φ) :=
  match thread.front with
  | .working frame => frame :: thread.waiting
  | .request _ _ | .reply _ _ => thread.waiting

/-- What a request may have caused while it is not answered. -/
structure CausesAtMost (tag : Str) (frame : Frame φ) : Prop where
  kinds : ∀ sent ∈ frame.caused, sent.2.type = .FORWARD ∨ sent.2.type = .HELLO
  forwards : frame.forwardsSent ≤ if Drccp.forwards tag frame.taskCtx.req then 1 else 0
  told : frame.told <+: if tells tag frame.taskCtx.req then frame.others else []
  nodup : frame.others.Nodup

/-- What a request has caused when it is answered. -/
structure Causes (tag : Str) (frame : Frame φ) : Prop extends CausesAtMost tag frame where
  forwarded : frame.forwardsSent = if Drccp.forwards tag frame.taskCtx.req then 1 else 0
  told_eq : frame.told = if tells tag frame.taskCtx.req then frame.others else []
  refused : frame.taskCtx.req.version ≠ 3 → frame.taskCtx.resp.type = .VERSION

theorem Counted.atMost {tag : Str} {frame : Frame φ} (h : Counted tag frame) :
    CausesAtMost tag frame :=
  ⟨h.kinds, h.forwards ▸ Nat.le_add_right .., h.told ▸ List.prefix_append .., h.nodup⟩

theorem Counted.atMost_of_next {tag : Str} {frame : Frame φ} (h : Counted tag frame.next) :
    CausesAtMost tag frame := by
  have hmost := h.atMost
  unfold Frame.next at hmost
  split at hmost
  · exact hmost
  · exact ⟨hmost.kinds, hmost.forwards, hmost.told, hmost.nodup⟩
  · exact ⟨hmost.kinds, hmost.forwards, hmost.told, hmost.nodup⟩

theorem Counted.causes {tag : Str} {frame : Frame φ} (h : Counted tag frame)
    (hseries : frame.series = []) : Causes tag frame := by
  have htold := h.told
  have hforwards := h.forwards
  rw [hseries, List.filterMap_nil, List.append_nil] at htold
  rw [Frame.forwardsLeft, hseries, List.countP_nil, ite_self, add_zero] at hforwards
  exact ⟨h.atMost, hforwards, htold, h.refused⟩

theorem Thread.Counts.frames {tag : Str} {thread : Thread φ} (h : thread.Counts tag) :
    ∀ frame ∈ thread.frames, CausesAtMost tag frame := by
  have hwaiting : ∀ frame ∈ thread.waiting, CausesAtMost tag frame :=
    fun frame hmem => (h.waiting frame hmem).atMost_of_next
  intro frame hmem
  unfold Thread.frames at hmem
  split at hmem
  · rename_i hfront
    rcases List.mem_cons.mp hmem with rfl | hmem
    · exact (h.front _ hfront).atMost
    · exact hwaiting frame hmem
  · exact hwaiting frame hmem
  · exact hwaiting frame hmem

/-- **No message storm.** Where the nodes have one tag and every request that they send is answered,
no execution goes on for ever, whatever the tables are, whatever clients send, whatever order the
threads take and whichever callbacks find their nodes. A request that is answered has caused one
`FORWARD` if it is a `LOCAL` that the node accepts, one `HELLO` for each other entry of the table of the
node if it is accepted and no `HELLO`, and nothing else, and one of another version is answered with
`VERSION`; before that, it has caused a part of this. -/
theorem no_message_storm [FloatShare φ] (finds : Frame φ → Bool) {nodes : Nodes φ} {tag : Str}
    (htags : ∀ e server, nodes e = some server → server.serverCtx.clusterTag = tag)
    (requests : List (DrccpEndpoint × Message φ)) :
    (∀ execution : ℕ → Cluster φ, execution 0 = .injected nodes requests →
      ¬ ∀ n, Step finds (execution n) (execution (n + 1))) ∧
    ∀ s, Relation.ReflTransGen (Step finds) (.injected nodes requests) s →
      (∀ thread ∈ s.threads, ∀ frame ∈ thread.frames, CausesAtMost tag frame) ∧
      ∀ frame ∈ s.handled, Causes tag frame := by
  refine ⟨fun execution _ hsteps => ?_, fun s hreach => ?_⟩
  · exact (wellFounded_iff_isEmpty_descending_chain.mp (wellFounded_step finds)).false
      ⟨execution, hsteps⟩
  · have hcounts := (counts_injected htags requests).of_reaches hreach
    exact ⟨fun thread hthread => (hcounts.threads thread hthread).frames,
      fun frame hframe => (hcounts.handled frame hframe).1.causes (hcounts.handled frame hframe).2⟩

/-! ## Runs of two nodes -/

/-- One more step of the only thread. -/
theorem reaches_cons [FloatShare φ] {finds : Frame φ → Bool} {nodes nodes' : Nodes φ}
    {thread : Thread φ} {thread' : Option (Thread φ)} {done handled : List (Frame φ)} {s : Cluster φ}
    (h : Advance finds nodes thread nodes' thread' done)
    (hrest : Relation.ReflTransGen (Step finds) ⟨nodes', thread'.toList, handled ++ done⟩ s) :
    Relation.ReflTransGen (Step finds) ⟨nodes, [thread], handled⟩ s := by
  refine .head ?_ hrest
  have hstep := Step.mk [] [] handled h
  rwa [List.append_nil] at hstep

/-- The nodes at `a:1` and `b:2`, which answer a payload with itself. -/
def pairNode (e : DrccpEndpoint) : DrccpServer ℚ :=
  ⟨⟨e.1, e.2, lit "pair", ofInserts [((lit "a", 1), 1), ((lit "b", 2), 1)], some id, none⟩, ⟨[], 0⟩⟩

def pairNodes : Nodes ℚ := fun e =>
  if e = (lit "a", 1) ∨ e = (lit "b", 2) then some (pairNode e) else none

theorem tag_pairNodes (e : DrccpEndpoint) (server : DrccpServer ℚ) (h : pairNodes e = some server) :
    server.serverCtx.clusterTag = lit "pair" := by
  rw [pairNodes] at h
  split_ifs at h
  cases h
  rfl

/-- A submission to the node at `a:1`. -/
def pairRequests : List (DrccpEndpoint × Message ℚ) :=
  [((lit "a", 1), ((Message.new.settag (lit "pair") []).settype .LOCAL).setversion 3)]

theorem select_pairNode :
    selectBestTarget (pairNode (lit "a", 1)).serverCtx ([], 0) = (lit "a", 1) := by
  decide +kernel

theorem repeater_pairNode (resp : Message ℚ) : forwardTaskRepeater (pairNode (lit "a", 1)).serverCtx
    ⟨((Message.new.settag (lit "pair") []).settype .LOCAL).setversion 3, resp, false⟩ =
      some ((lit "a", 1), forwardRequest (pairNode (lit "a", 1)).serverCtx (lit "a", 1) []) := by
  rw [forwardTaskRepeater, if_neg Bool.false_ne_true]
  dsimp only
  have hselect := select_pairNode
  simp only [Message.new, Message.settag, Message.settype, Message.setversion, hselect]

/-- The submission is forwarded to the node itself, which tells its neighbour. -/
theorem reaches_told : ∃ s thread,
    Relation.ReflTransGen (Step fun _ => true) (.injected pairNodes pairRequests) s ∧
      s.threads = [thread] ∧ thread.front = .request (lit "b", 2)
        (updateRequest (pairNode (lit "a", 1)).serverCtx (lit "b", 2)) := by
  refine ⟨_, _, reaches_cons (.deliver rfl rfl rfl) <| reaches_cons
    (.forward rfl rfl (repeater_pairNode _)) <| reaches_cons (.deliver rfl rfl rfl) <|
      reaches_cons (.update rfl) .refl, rfl, rfl⟩

/-- The whole run of the submission. -/
theorem reaches_answered : ∃ s frame,
    Relation.ReflTransGen (Step fun _ => true) (.injected pairNodes pairRequests) s ∧
      s.threads = [] ∧ frame ∈ s.handled ∧ frame.taskCtx.req.type = .LOCAL ∧
      frame.forwardsSent = 1 ∧ frame.told = [(lit "b", 2)] := by
  refine ⟨_, _, reaches_cons (.deliver rfl rfl rfl) <| reaches_cons
    (.forward rfl rfl (repeater_pairNode _)) <| reaches_cons (.deliver rfl rfl rfl) <|
    -- the series of the forward
    reaches_cons (.update rfl) <| reaches_cons (.deliver rfl rfl rfl) <| reaches_cons (.finish rfl) <|
    reaches_cons (.updated rfl rfl rfl) <| reaches_cons (.finish rfl) <|
    -- the series of the submission
    reaches_cons (.forwarded rfl rfl) <| reaches_cons (.stop rfl rfl rfl) <|
    reaches_cons (.update rfl) <| reaches_cons (.deliver rfl rfl rfl) <| reaches_cons (.finish rfl) <|
    reaches_cons (.updated rfl rfl rfl) <| reaches_cons (.finish rfl) <| reaches_cons .answered .refl,
    rfl, List.mem_append_left _ (List.mem_append_right _ (List.mem_singleton_self _)), rfl, rfl, rfl⟩

/-- A submission that is answered has caused one `FORWARD`, to the node itself, and one `HELLO`, to its
neighbour. -/
theorem no_message_storm_pair :
    (∀ execution : ℕ → Cluster ℚ, execution 0 = .injected pairNodes pairRequests →
      ¬ ∀ n, Step (fun _ => true) (execution n) (execution (n + 1))) ∧
    ∃ s frame, Relation.ReflTransGen (Step fun _ => true) (.injected pairNodes pairRequests) s ∧
      frame ∈ s.handled ∧ frame.taskCtx.req.type = .LOCAL ∧ frame.forwardsSent = 1 ∧
      frame.told = [(lit "b", 2)] ∧ Causes (lit "pair") frame := by
  have hstorm := no_message_storm (fun _ => true) tag_pairNodes pairRequests
  obtain ⟨s, frame, hreach, -, hframe, htype, hforwards, htold⟩ := reaches_answered
  exact ⟨hstorm.1, s, frame, hreach, hframe, htype, hforwards, htold,
    (hstorm.2 s hreach).2 frame hframe⟩

/-! ## A submission of another version -/

/-- One node, at `a:1`. -/
def aloneNodes : Nodes ℚ := fun e => if e = (lit "a", 1) then some aloneNode else none

/-- **A `LOCAL` of another version** is answered with `VERSION` and causes no `FORWARD`. -/
theorem local_ignored : ∃ s, Relation.ReflTransGen (Step fun _ => true)
      (.injected aloneNodes [((lit "a", 1), Message.new.settype .LOCAL)]) s ∧
    s.threads = [] ∧ ∃ frame ∈ s.handled, frame.taskCtx.req.type = .LOCAL ∧
      frame.taskCtx.resp.type = .VERSION ∧ frame.forwardsSent = 0 := by
  have hdeliver : Advance (fun _ => true) aloneNodes
      ⟨.request (lit "a", 1) (Message.new.settype .LOCAL), []⟩ _ (some ⟨.working _, []⟩) [] :=
    .deliver rfl rfl rfl
  exact ⟨_, reaches_cons hdeliver <| reaches_cons (.finish rfl) <| reaches_cons .answered .refl, rfl,
    _, List.mem_cons_self, rfl, rfl, rfl⟩

end Jxtd.Computation.Drccp
