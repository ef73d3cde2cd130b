import Jxtd.Computation.Drccp.Traffic

/-!
# Closed clusters

The nodes of a cluster that were started, share a tag and know each other and nobody else.

* `Team`: the tag, the members and their payload callbacks; `Team.Closed`: such nodes.
* `Served`: the answer that a request is to have: for a submission, what the callback of a member
  makes of the payload that was submitted.
* `Team.Fit.process`: a node of the team handles every request that names members only.
* `Linked`: the series that wait, each for the request that the next one works on.
* **`Advance.runs`**: every step keeps this; **`Team.Runs.advances`**: no thread is stuck while
  the callbacks find their nodes.
-/

namespace Jxtd.Computation.Drccp

open Lib Std Relation

variable {φ : Type}

/-- What the nodes of a cluster have in common. -/
structure Team where
  tag : Str
  members : Set DrccpEndpoint
  /-- The payload callback of each member. -/
  payload : DrccpEndpoint → Str → Str

variable (team : Team)

/-- A node of the team, which has its own entry and knows members only. -/
structure Team.Fit (e : DrccpEndpoint) (server : DrccpServer φ) : Prop where
  tag : server.serverCtx.clusterTag = team.tag
  own : server.serverCtx.self ∈ keySet server.serverCtx.shares
  known : ∀ e' ∈ keySet server.serverCtx.shares, e' ∈ team.members
  payload : server.serverCtx.payloadProcess = some (team.payload e)

/-- The nodes are the members. -/
structure Team.Closed (nodes : Nodes φ) : Prop where
  member : ∀ e ∈ team.members, ∃ server, nodes e = some server
  fit : ∀ e server, nodes e = some server → e ∈ team.members ∧ team.Fit e server

/-- A request that names members only. -/
structure Team.Names (req : Message φ) : Prop where
  meet : req.type = .MEET → req.src ∈ team.members
  shares : ∀ e ∈ req.shares, e.1 ∈ team.members

/-- **The answer to a submission** is what a member's callback makes of its payload. -/
def Team.Served (req resp : Message φ) : Prop :=
  Accepted team.tag req → req.type = .LOCAL ∨ req.type = .FORWARD →
    resp.type = .RESULT ∧ ∃ e ∈ team.members, resp.raw = team.payload e req.raw

variable {team}

/-! ## A request at a node -/

section Node

variable {e : DrccpEndpoint} {server : DrccpServer φ} {req : Message φ}

/-- A node with another table. -/
theorem Team.Fit.shares (h : team.Fit e server) {shares : TreeMap DrccpEndpoint φ}
    (hkeys : keySet server.serverCtx.shares ⊆ keySet shares)
    (hknown : ∀ e' ∈ keySet shares, e' ∈ team.members) (clientCtx : DrccpClientContext) :
    team.Fit e ⟨{ server.serverCtx with shares }, clientCtx⟩ where
  tag := h.tag
  own := hkeys h.own
  known := hknown
  payload := h.payload

/-- A store under the key of a member. -/
theorem Team.Fit.insert (h : team.Fit e server) {target : DrccpEndpoint}
    (htarget : target ∈ team.members) (share : φ) (clientCtx : DrccpClientContext) :
    team.Fit e ⟨{ server.serverCtx with
      shares := server.serverCtx.shares.insert target share }, clientCtx⟩ := by
  refine h.shares ?_ (fun e' he' => ?_) clientCtx
  · rw [keySet_store]
    exact Finset.subset_insert ..
  · rw [keySet_store, Finset.mem_insert] at he'
    rcases he' with rfl | he'
    · exact htarget
    · exact h.known e' he'

theorem Team.Fit.insertIfNew (h : team.Fit e server) {target : DrccpEndpoint}
    (htarget : target ∈ team.members) (share : φ) (clientCtx : DrccpClientContext) :
    team.Fit e ⟨{ server.serverCtx with
      shares := server.serverCtx.shares.insertIfNew target share }, clientCtx⟩ := by
  refine h.shares ?_ (fun e' he' => ?_) clientCtx
  · rw [keySet_insertIfNew]
    exact Finset.subset_insert ..
  · rw [keySet_insertIfNew, Finset.mem_insert] at he'
    rcases he' with rfl | he'
    · exact htarget
    · exact h.known e' he'

theorem Team.Fit.self_mem (h : team.Fit e server) : server.serverCtx.self ∈ team.members :=
  h.known _ h.own

/-- The tasks of an update go to members. -/
theorem Team.Fit.neighbours (h : team.Fit e server) {neigh : DrccpEndpoint}
    (hneigh : neigh ∈ Drccp.neighbours server.serverCtx) : neigh ∈ team.members := by
  obtain ⟨hmem, -⟩ := List.mem_filter.mp hneigh
  rw [TreeMap.map_fst_toList_eq_keys, TreeMap.mem_keys] at hmem
  exact h.known neigh (mem_keySet.mpr hmem)

variable [FloatShare φ]

theorem Team.Fit.updateShares (h : team.Fit e server) (peer : DrccpEndpoint)
    {entries : List (DrccpEndpoint × φ)} (hentries : ∀ x ∈ entries, x.1 ∈ team.members) :
    ∃ ctx, Drccp.updateShares server.serverCtx peer entries = .ok ctx ∧
      ∀ clientCtx, team.Fit e ⟨ctx, clientCtx⟩ := by
  obtain ⟨ctx, hctx⟩ := updateShares_of_mem h.own peer entries
  refine ⟨ctx, hctx, fun clientCtx => ?_⟩
  obtain ⟨shares, rfl, hkeys⟩ := updateShares_ok hctx
  refine h.shares (hkeys ▸ Finset.subset_union_left) (fun e' he' => ?_) clientCtx
  rw [hkeys, Finset.mem_union, List.mem_toFinset, List.mem_map] at he'
  rcases he' with he' | ⟨x, hx, rfl⟩
  · exact h.known e' he'
  · exact hentries x hx

theorem Team.Fit.selectBestTarget (h : team.Fit e server) (source : DrccpEndpoint) :
    Drccp.selectBestTarget server.serverCtx source ∈ team.members := by
  rcases selectBestTarget_cases server.serverCtx source with ⟨share, hshare, -⟩ | ⟨-, hself⟩
  · exact h.known _ (mem_keySet_iff_get.mpr ⟨share, hshare⟩)
  · rw [hself]
    exact h.self_mem

/-- What a node of the team makes of a request. -/
structure Handles (team : Team) (e : DrccpEndpoint) (req : Message φ) (out : Processed φ) : Prop where
  fit : team.Fit e out.server
  resp : Accepted team.tag req → out.resp ≠ none
  shares : ∀ resp, out.resp = some resp → resp.shares = []
  forward : Accepted team.tag req → req.type = .FORWARD → ∀ resp, out.resp = some resp →
    resp.type = .RESULT ∧ resp.raw = team.payload e req.raw

/-- **A node of the team handles every request** that names members only. -/
theorem Team.Fit.process (h : team.Fit e server) (hreq : team.Names req) :
    ∃ out, Drccp.process server req = .ok out ∧ Handles team e req out := by
  have hignored (hnot : ¬ Accepted team.tag req) : Handles team e req ⟨server, none, []⟩ :=
    ⟨h, fun ha => absurd ha hnot, fun _ hr => (by cases hr), fun ha => absurd ha hnot⟩
  rw [Drccp.process]
  split_ifs with htag hunknown hversion
  · exact ⟨_, rfl, hignored fun ha => htag (h.tag ▸ ha.1)⟩
  · exact ⟨_, rfl, hignored fun ha => ha.2.1 hunknown⟩
  · refine ⟨_, rfl, h, fun ha => absurd ha.2.2 hversion, ?_, fun ha => absurd ha.2.2 hversion⟩
    rintro resp ⟨⟩
    rfl
  · have hanswers {server' : DrccpServer φ} {series : List (SeriesTask φ)} (type : MessageType)
        (hfit : team.Fit e server') (hother : req.type ≠ .FORWARD) :
        Handles team e req ⟨server', some (((setupHeaderResp .new server.serverCtx).setdest
          req.src).settype type), series⟩ := by
      refine ⟨hfit, fun _ => Option.some_ne_none _, ?_, fun _ hf => absurd hf hother⟩
      rintro resp ⟨⟩
      rfl
    split
    · rename_i htype
      obtain ⟨ctx, hctx, hfit⟩ := (h.insertIfNew (hreq.meet htype) FloatShare.one
        server.clientCtx).updateShares req.src hreq.shares
      exact ⟨_, bind_eq_ok.mpr ⟨ctx, hctx, rfl⟩, hanswers _ (hfit _) (by rw [htype]; decide)⟩
    · rename_i htype
      obtain ⟨ctx, hctx, hfit⟩ := h.updateShares req.src hreq.shares
      exact ⟨_, bind_eq_ok.mpr ⟨ctx, hctx, rfl⟩, hanswers _ (hfit _) (by rw [htype]; decide)⟩
    · rename_i htype
      refine ⟨_, rfl, h.shares subset_rfl h.known _, fun _ => Option.some_ne_none _, ?_,
        fun _ hf => absurd (htype.symm.trans hf) (by decide)⟩
      rintro resp ⟨⟩
      rfl
    · rename_i htype
      split
      · rename_i hnone
        exact absurd (h.payload.symm.trans hnone) (Option.some_ne_none _)
      · rename_i payloadProcess hsome
        obtain rfl : team.payload e = payloadProcess := Option.some.inj (h.payload.symm.trans hsome)
        refine ⟨_, rfl, h.insert h.self_mem _ _, fun _ => Option.some_ne_none _, ?_, ?_⟩
        · rintro resp ⟨⟩
          rfl
        · rintro - - resp ⟨⟩
          exact ⟨rfl, rfl⟩
    · rename_i hforward
      refine ⟨_, rfl, h.shares subset_rfl h.known _, fun _ => Option.some_ne_none _, ?_,
        fun _ hf => absurd hf hforward⟩
      rintro resp ⟨⟩
      rfl

end Node

/-! ## Series -/

/-- A series of a member. -/
structure Team.Sound (team : Team) (frame : Frame φ) : Prop where
  node : frame.node ∈ team.members
  updates : ∀ neigh req, .update neigh req ∈ frame.series → neigh ∈ team.members ∧
    Accepted team.tag req ∧ req.type = .HELLO ∧ req.shares = []
  shares : frame.taskCtx.resp.shares = []
  /-- When no forward is left, the answer is there. -/
  served : frame.taskCtx.forwardSuccess = true ∨ .forward ∉ frame.series →
    team.Served frame.taskCtx.req frame.taskCtx.resp

/-- The request whose answer a series waits for. -/
def Team.Awaits (team : Team) (frame : Frame φ) (req : Message φ) : Prop :=
  match frame.series with
  | [] => False
  | .forward :: _ => Accepted team.tag req ∧ req.type = .FORWARD ∧ req.shares = [] ∧
      req.raw = frame.taskCtx.req.raw
  | .update _ sent :: _ => req = sent

/-- The series that wait: the first one for a request, every other one for that of the series before
it. -/
def Team.Linked (team : Team) : Message φ → List (Frame φ) → Prop
  | _, [] => True
  | req, frame :: waiting =>
    team.Sound frame ∧ team.Awaits frame req ∧ team.Linked frame.taskCtx.req waiting

/-- A thread of a closed cluster. -/
def Team.Runs (team : Team) (thread : Thread φ) : Prop :=
  match thread.front with
  | .request dest req => dest ∈ team.members ∧ team.Names req ∧ team.Linked req thread.waiting
  | .working frame => team.Sound frame ∧ team.Linked frame.taskCtx.req thread.waiting
  | .reply source resp => source ∈ team.members ∧ resp.shares = [] ∧
      ∃ req, team.Linked req thread.waiting ∧ team.Served req resp

section Series

variable {frame : Frame φ} {rest : List (SeriesTask φ)} {req resp : Message φ}

theorem Team.awaits_forward (hseries : frame.series = .forward :: rest) :
    team.Awaits frame req ↔ Accepted team.tag req ∧ req.type = .FORWARD ∧ req.shares = [] ∧
      req.raw = frame.taskCtx.req.raw := by
  rw [Team.Awaits, hseries]

theorem Team.awaits_update {neigh : DrccpEndpoint} {sent : Message φ}
    (hseries : frame.series = .update neigh sent :: rest) :
    team.Awaits frame req ↔ req = sent := by
  rw [Team.Awaits, hseries]

/-- A series that waits has a task that waits. -/
theorem Team.Awaits.series (h : team.Awaits frame req) :
    (∃ rest, frame.series = .forward :: rest) ∨
      ∃ neigh sent rest, frame.series = .update neigh sent :: rest := by
  unfold Team.Awaits at h
  split at h
  · exact h.elim
  · exact .inl ⟨_, by assumption⟩
  · exact .inr ⟨_, _, _, by assumption⟩

/-- What a series waits for is accepted. -/
theorem Team.Sound.accepted (h : team.Sound frame) (hawaits : team.Awaits frame req) :
    Accepted team.tag req := by
  rcases hawaits.series with ⟨rest, hseries⟩ | ⟨neigh, sent, rest, hseries⟩
  · exact ((Team.awaits_forward hseries).mp hawaits).1
  · rw [(Team.awaits_update hseries).mp hawaits]
    exact (h.updates neigh sent (hseries ▸ List.mem_cons_self)).2.1

/-- A task of the series is done. -/
theorem Team.Sound.tasks (h : team.Sound frame) {task : SeriesTask φ}
    (hseries : frame.series = task :: rest)
    (hdone : task = .forward → frame.taskCtx.forwardSuccess = true) :
    team.Sound (frame.tasks rest) where
  node := h.node
  updates neigh req hmem := h.updates neigh req (hseries ▸ List.mem_cons_of_mem _ hmem)
  shares := h.shares
  served := by
    rintro (hsuccess | hnone)
    · exact h.served (.inl hsuccess)
    · by_cases htask : task = .forward
      · exact h.served (.inl (hdone htask))
      · refine h.served (.inr ?_)
        rw [hseries, List.mem_cons]
        rintro (heq | hmem)
        · exact htask heq.symm
        · exact hnone hmem

/-- **The answer to a forward** becomes that to the submission. -/
theorem Team.Sound.forwardDone (h : team.Sound frame) (hseries : frame.series = .forward :: rest)
    (hawaits : team.Awaits frame req) (hserved : team.Served req resp) :
    team.Sound { frame with taskCtx := Drccp.forwardDone frame.taskCtx (some resp) } where
  node := h.node
  updates := h.updates
  shares := h.shares
  served := by
    obtain ⟨haccepted, htype, -, hraw⟩ := (Team.awaits_forward hseries).mp hawaits
    obtain ⟨-, e, he, hresp⟩ := hserved haccepted (.inr htype)
    rw [hraw] at hresp
    exact fun _ _ _ => ⟨rfl, e, he, hresp⟩

end Series

/-! ## Steps -/

section Step

variable [FloatShare φ] {finds : Frame φ → Bool} {nodes nodes' : Nodes φ} {thread : Thread φ}
  {thread' : Option (Thread φ)} {done : List (Frame φ)} {e : DrccpEndpoint} {server server' : DrccpServer φ}

omit [FloatShare φ] in
theorem Team.Closed.update (h : team.Closed nodes) (hserver : nodes e = some server)
    (hfit : team.Fit e server') : team.Closed (Function.update nodes e (some server')) where
  member e' he' := by
    by_cases heq : e' = e
    · exact ⟨server', by rw [heq, Function.update_self]⟩
    · rw [Function.update_of_ne heq]
      exact h.member e' he'
  fit e' s hs := by
    by_cases heq : e' = e
    · rw [heq, Function.update_self] at hs
      cases hs
      rw [heq]
      exact ⟨(h.fit e server hserver).1, hfit⟩
    · rw [Function.update_of_ne heq] at hs
      exact h.fit e' s hs

theorem Team.Fit.forwarded (h : team.Fit e server) {target : DrccpEndpoint}
    (htarget : target ∈ team.members) (resp : Message φ) :
    team.Fit e { server with serverCtx := Drccp.forwarded server.serverCtx target (some resp) } := by
  have hinsert := h.insert htarget
    (FloatShare.addHalf (server.serverCtx.shares[target]?.getD FloatShare.zero)) server.clientCtx
  exact ⟨hinsert.tag, hinsert.own, hinsert.known, hinsert.payload⟩

/-- **A request that is handled** starts a series of the member. -/
theorem Handles.sound {req resp : Message φ} {out : Processed φ} (hmember : e ∈ team.members)
    (hfit : team.Fit e server) (hout : process server req = .ok out)
    (h : Handles team e req out) (hresp : out.resp = some resp) (others : List DrccpEndpoint) :
    team.Sound ⟨e, ⟨req, resp, false⟩, out.series, others, []⟩ := by
  obtain ⟨htag, hseries⟩ := process_series hout
  rw [hfit.tag] at hseries
  refine ⟨hmember, fun neigh sent hmem => ?_, h.shares resp hresp, ?_⟩
  · change SeriesTask.update neigh sent ∈ out.series at hmem
    rw [hseries, List.mem_append] at hmem
    rcases hmem with hmem | hmem
    · split_ifs at hmem
      · exact absurd (List.mem_singleton.mp hmem) (by simp)
      · cases hmem
    · split_ifs at hmem
      · obtain ⟨e', he', heq⟩ := List.mem_map.mp hmem
        cases heq
        exact ⟨h.fit.neighbours he', ⟨h.fit.tag, MessageType.noConfusion, rfl⟩, rfl, rfl⟩
      · cases hmem
  · rintro (hsuccess | hnone) haccepted (hlocal | hforward)
    · cases hsuccess
    · cases hsuccess
    · refine absurd ?_ hnone
      change SeriesTask.forward ∈ out.series
      rw [hseries, if_pos ⟨haccepted, hlocal⟩]
      exact List.mem_append_left _ (List.mem_singleton_self _)
    · obtain ⟨htype, hraw⟩ := h.forward haccepted hforward resp hresp
      exact ⟨htype, e, hmember, hraw⟩

omit [FloatShare φ] in
theorem Team.Sound.send {frame : Frame φ} (h : team.Sound frame) (dest : DrccpEndpoint)
    (req : Message φ) : team.Sound (frame.send dest req) :=
  ⟨h.node, h.updates, h.shares, h.served⟩

/-- **Everything that happens to a thread** keeps the cluster closed. -/
theorem Advance.runs (h : Advance finds nodes thread nodes' thread' done) (hclosed : team.Closed nodes)
    (hruns : team.Runs thread) :
    team.Closed nodes' ∧ (∀ t ∈ thread', team.Runs t) ∧
      ∀ frame ∈ done, frame.node ∈ team.members ∧
        team.Served frame.taskCtx.req frame.taskCtx.resp := by
  have hnone : ∀ frame ∈ ([] : List (Frame φ)), frame.node ∈ team.members ∧
      team.Served frame.taskCtx.req frame.taskCtx.resp :=
    fun _ hmem => absurd hmem List.not_mem_nil
  cases h with
  | deliver hserver hout hresp =>
    obtain ⟨-, hnames, hlinked⟩ := hruns
    obtain ⟨hmember, hfit⟩ := hclosed.fit _ _ hserver
    obtain ⟨out, hout', hhandles⟩ := hfit.process hnames
    obtain rfl := Except.ok.inj (hout'.symm.trans hout)
    refine ⟨hclosed.update hserver hhandles.fit, ?_, hnone⟩
    rintro t ⟨⟩
    exact ⟨hhandles.sound hmember hfit hout hresp _, hlinked⟩
  | ignore hserver hout hresp =>
    obtain ⟨-, hnames, -⟩ := hruns
    obtain ⟨-, hfit⟩ := hclosed.fit _ _ hserver
    obtain ⟨out, hout', hhandles⟩ := hfit.process hnames
    obtain rfl := Except.ok.inj (hout'.symm.trans hout)
    refine ⟨hclosed.update hserver hhandles.fit, ?_, hnone⟩
    rintro t ⟨⟩
  | outside hdest resp =>
    obtain ⟨server, hserver⟩ := hclosed.member _ hruns.1
    rw [hdest] at hserver
    cases hserver
  | @forward frame rest waiting server target req hseries hserver hrepeater =>
    obtain ⟨hsound, hlinked⟩ := hruns
    obtain ⟨-, hfit⟩ := hclosed.fit _ _ hserver
    refine ⟨hclosed, ?_, hnone⟩
    rintro t ⟨⟩
    rw [forwardTaskRepeater] at hrepeater
    split_ifs at hrepeater
    cases hrepeater
    refine ⟨hfit.selectBestTarget _, ⟨fun htype => ?_, fun _ hmem => absurd hmem List.not_mem_nil⟩,
      hsound.send _ _, (Team.awaits_forward hseries).mpr ⟨⟨hfit.tag, ?_, rfl⟩, rfl, rfl, rfl⟩,
      hlinked⟩
    · cases htype
    · exact MessageType.noConfusion
  | stop hseries hserver hrepeater =>
    obtain ⟨hsound, hlinked⟩ := hruns
    refine ⟨hclosed, ?_, hnone⟩
    rintro t ⟨⟩
    exact ⟨hsound.tasks hseries fun _ => forwardTaskRepeater_none hrepeater, hlinked⟩
  | @update frame neigh req rest waiting hseries =>
    obtain ⟨hsound, hlinked⟩ := hruns
    obtain ⟨hneigh, haccepted, htype, hshares⟩ :=
      hsound.updates neigh req (hseries ▸ List.mem_cons_self)
    refine ⟨hclosed, ?_, hnone⟩
    rintro t ⟨⟩
    refine ⟨hneigh, ⟨fun hmeet => ?_, fun e he => ?_⟩, hsound.send _ _,
      (Team.awaits_update hseries).mpr rfl, hlinked⟩
    · rw [htype] at hmeet
      cases hmeet
    · rw [hshares] at he
      cases he
  | forwarded hseries hserver =>
    obtain ⟨hsource, -, req, ⟨hsound, hawaits, hlinked⟩, hserved⟩ := hruns
    obtain ⟨-, hfit⟩ := hclosed.fit _ _ hserver
    refine ⟨hclosed.update hserver (hfit.forwarded hsource _), ?_, hnone⟩
    rintro t ⟨⟩
    exact ⟨hsound.forwardDone hseries hawaits hserved, hlinked⟩
  | @updated frame neigh req rest waiting server source resp ctx hseries hserver hctx =>
    obtain ⟨-, hshares, req, ⟨hsound, -, hlinked⟩, -⟩ := hruns
    obtain ⟨-, hfit⟩ := hclosed.fit _ _ hserver
    have hentries : ∀ x ∈ resp.shares, x.1 ∈ team.members := fun x hx =>
      absurd (hshares ▸ hx) List.not_mem_nil
    obtain ⟨ctx', hctx', hfit'⟩ := hfit.updateShares neigh hentries
    rw [found_of_updated hctx] at hctx
    obtain rfl := Except.ok.inj (hctx'.symm.trans hctx)
    refine ⟨hclosed.update hserver (hfit' _), ?_, hnone⟩
    rintro t ⟨⟩
    exact ⟨hsound.tasks hseries (fun heq => by cases heq), hlinked⟩
  | @finish frame waiting hseries =>
    obtain ⟨hsound, hlinked⟩ := hruns
    have hserved := hsound.served (.inr (by rw [hseries]; exact List.not_mem_nil))
    refine ⟨hclosed, ?_, fun f hf => ?_⟩
    · rintro t ⟨⟩
      exact ⟨hsound.node, hsound.shares, _, hlinked, hserved⟩
    · rw [List.mem_singleton.mp hf]
      exact ⟨hsound.node, hserved⟩
  | answered =>
    refine ⟨hclosed, ?_, hnone⟩
    rintro t ⟨⟩

/-- **No thread is stuck**, if the callbacks find their nodes. -/
theorem Team.Runs.advances (hfinds : ∀ frame, finds frame = true) (h : team.Runs thread)
    (hclosed : team.Closed nodes) :
    ∃ nodes' thread' done, Advance finds nodes thread nodes' thread' done := by
  obtain ⟨front, waiting⟩ := thread
  cases front with
  | request dest req =>
    obtain ⟨hdest, hnames, hlinked⟩ := h
    obtain ⟨server, hserver⟩ := hclosed.member dest hdest
    obtain ⟨out, hout, hhandles⟩ := (hclosed.fit _ _ hserver).2.process hnames
    cases hresp : out.resp with
    | some resp => exact ⟨_, _, _, .deliver hserver hout hresp⟩
    | none =>
      cases waiting with
      | nil => exact ⟨_, _, _, .ignore hserver hout hresp⟩
      | cons frame waiting =>
        obtain ⟨hsound, hawaits, -⟩ := hlinked
        exact absurd hresp (hhandles.resp (hsound.accepted hawaits))
  | working frame =>
    obtain ⟨hsound, -⟩ := h
    obtain ⟨server, hserver⟩ := hclosed.member _ hsound.node
    cases hseries : frame.series with
    | nil => exact ⟨_, _, _, .finish hseries⟩
    | cons task rest =>
      cases task with
      | update neigh req => exact ⟨_, _, _, .update hseries⟩
      | forward =>
        cases hrepeater : forwardTaskRepeater server.serverCtx frame.taskCtx with
        | none => exact ⟨_, _, _, .stop hseries hserver hrepeater⟩
        | some sent => exact ⟨_, _, _, .forward hseries hserver hrepeater⟩
  | reply source resp =>
    obtain ⟨-, -, req, hlinked, -⟩ := h
    cases waiting with
    | nil => exact ⟨_, _, _, .answered⟩
    | cons frame waiting =>
      obtain ⟨hsound, hawaits, -⟩ := hlinked
      obtain ⟨server, hserver⟩ := hclosed.member _ hsound.node
      rcases hawaits.series with ⟨rest, hseries⟩ | ⟨neigh, sent, rest, hseries⟩
      · exact ⟨_, _, _, .forwarded hseries hserver⟩
      · obtain ⟨ctx, hctx⟩ := updated_of_mem (hclosed.fit _ _ hserver).2.own neigh (some resp)
        rw [← hfinds frame] at hctx
        exact ⟨_, _, _, .updated hseries hserver hctx⟩

end Step

end Jxtd.Computation.Drccp
