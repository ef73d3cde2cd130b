import Jxtd.Computation.Drccp.Server

/-!
# Joining a cluster

`signin` sends a `MEET` to a boot node, which handles it, tells its neighbours and replies
(`computation/drccp/server.cc`).

* `answer`, `UpdatesRun`, `Joined`: the exchange, in which every neighbour may be any node.
* `process_resp_shares`: no reply carries a share.
* `process_meet`: what the boot node adds to its table.
* **`joined_member_iff`**: exactly which joins make the joiner a member.
-/

namespace Jxtd.Computation.Drccp

open Lib Std

variable {φ : Type} [FloatShare φ]

/-! ## The exchange -/

/-- What the node at an endpoint replies; `none` when there is no node, or no reply. -/
def answer (peers : DrccpEndpoint → Option (DrccpServer φ)) (endpoint : DrccpEndpoint)
    (req : Message φ) : Option (Message φ) :=
  match peers endpoint with
  | none => none
  | some peer =>
    match process peer req.received with
    | .ok out => out.resp.map Message.received
    | .error _ => none

/-- The update tasks of a series, one after the other. -/
inductive UpdatesRun (peers : DrccpEndpoint → Option (DrccpServer φ)) :
    DrccpServerContext φ → List (SeriesTask φ) → DrccpServerContext φ → Prop
  | nil (ctx : DrccpServerContext φ) : UpdatesRun peers ctx [] ctx
  | update {found : Bool} {ctx ctx₁ ctx₂ : DrccpServerContext φ} {neigh : DrccpEndpoint}
      {req : Message φ} {series : List (SeriesTask φ)} :
      updated found ctx neigh (answer peers neigh req) = .ok ctx₁ → UpdatesRun peers ctx₁ series ctx₂ →
      UpdatesRun peers ctx (.update neigh req :: series) ctx₂

/-- `signin` has returned `0`: the boot node has handled the request and run its update tasks, and
the joiner has handled the reply. -/
def Joined (peers : DrccpEndpoint → Option (DrccpServer φ)) (clusterTag : Str)
    (endpoint : DrccpEndpoint) (joiner boot joiner' : DrccpServer φ)
    (boot' : DrccpServerContext φ) : Prop :=
  let (sender, req) := signinRequest joiner clusterTag endpoint
  ∃ out reply, process boot req.received = .ok out ∧ out.resp = some reply ∧
    UpdatesRun peers out.server.serverCtx out.series boot' ∧
    signinDone sender (some reply.received) = (0, joiner')

/-- The joiner is in the table of the boot node and knows all that is there. -/
def Member (joiner joiner' : DrccpServer φ) (boot' : DrccpServerContext φ) : Prop :=
  joiner.serverCtx.self ∈ keySet boot'.shares ∧
    keySet boot'.shares ⊆ keySet joiner'.serverCtx.shares

/-! ## Replies and updates -/

/-- **No reply carries a share.** -/
theorem process_resp_shares {server : DrccpServer φ} {req resp : Message φ} {out : Processed φ}
    (h : process server req = .ok out) (hresp : out.resp = some resp) : resp.shares = [] := by
  rw [process] at h
  split_ifs at h
  · cases h
    cases hresp
  · cases h
    cases hresp
  · cases h
    cases hresp
    rfl
  · split at h
    · obtain ⟨ctx, -, h⟩ := bind_eq_ok.mp h
      cases h
      cases hresp
      rfl
    · obtain ⟨ctx, -, h⟩ := bind_eq_ok.mp h
      cases h
      cases hresp
      rfl
    · cases h
      cases hresp
      rfl
    · split at h
      · cases h
      · cases h
        cases hresp
        rfl
    · cases h
      cases hresp
      rfl

theorem answer_shares {peers : DrccpEndpoint → Option (DrccpServer φ)} {endpoint : DrccpEndpoint}
    {req resp : Message φ} (h : answer peers endpoint req = some resp) : resp.shares = [] := by
  rw [answer] at h
  split at h
  · cases h
  · split at h
    · next out hout =>
      obtain ⟨reply, hreply, rfl⟩ := Option.map_eq_some_iff.mp h
      have hshares : reply.shares = [] := process_resp_shares hout hreply
      exact hshares
    · cases h

/-- An update task adds no endpoint: its neighbour is in the table, and the answer brings none. -/
theorem updated_keySet {peers : DrccpEndpoint → Option (DrccpServer φ)} {found : Bool}
    {ctx ctx' : DrccpServerContext φ} {neigh : DrccpEndpoint} {req : Message φ}
    (hneigh : neigh ∈ keySet ctx.shares)
    (h : updated found ctx neigh (answer peers neigh req) = .ok ctx') :
    keySet ctx'.shares = keySet ctx.shares := by
  obtain rfl := found_of_updated h
  cases hanswer : answer peers neigh req with
  | none =>
    rw [hanswer] at h
    cases h
    rw [keySet_store]
    exact Finset.insert_eq_of_mem hneigh
  | some resp =>
    rw [hanswer] at h
    obtain ⟨shares, rfl, hkeys⟩ := updateShares_ok h
    rw [hkeys, answer_shares hanswer]
    exact Finset.union_empty _

/-- **The update tasks** leave the endpoints of the table. -/
theorem UpdatesRun.keySet {peers : DrccpEndpoint → Option (DrccpServer φ)}
    {ctx ctx' : DrccpServerContext φ} {series : List (SeriesTask φ)}
    (h : UpdatesRun peers ctx series ctx')
    (hseries : ∀ neigh req, SeriesTask.update neigh req ∈ series → neigh ∈ Lib.keySet ctx.shares) :
    Lib.keySet ctx'.shares = Lib.keySet ctx.shares := by
  induction h with
  | nil ctx => rfl
  | update hupdated _ ih =>
    have hkeys := updated_keySet (hseries _ _ List.mem_cons_self) hupdated
    rw [ih fun neigh req hmem => hkeys ▸ hseries neigh req (List.mem_cons_of_mem _ hmem), hkeys]

omit [FloatShare φ] in
theorem mem_neighbours {ctx : DrccpServerContext φ} {neigh : DrccpEndpoint}
    (h : neigh ∈ neighbours ctx) : neigh ∈ keySet ctx.shares := by
  obtain ⟨⟨e, share⟩, he, rfl⟩ := List.mem_map.mp (List.mem_of_mem_filter h)
  exact mem_keySet_iff_get.mpr ⟨share, TreeMap.mem_toList_iff_getElem?_eq_some.mp he⟩

omit [FloatShare φ] in
theorem mem_of_mem_pushUpdates {server : DrccpServer φ} {sent : Message φ}
    {neigh : DrccpEndpoint} (resp : Message φ)
    (h : SeriesTask.update neigh sent ∈ (pushUpdates server resp []).series) :
    neigh ∈ keySet server.serverCtx.shares := by
  obtain ⟨e, he, heq⟩ := List.mem_map.mp h
  cases heq
  exact mem_neighbours he

/-- A node in its own table survives its update tasks. -/
theorem exists_updatesRun (peers : DrccpEndpoint → Option (DrccpServer φ))
    {ctx : DrccpServerContext φ} (hself : ctx.self ∈ keySet ctx.shares)
    (tasks : List (DrccpEndpoint × Message φ)) :
    ∃ ctx', UpdatesRun peers ctx (tasks.map fun t => .update t.1 t.2) ctx' := by
  induction tasks generalizing ctx with
  | nil => exact ⟨ctx, .nil ctx⟩
  | cons t tasks ih =>
    obtain ⟨ctx₁, hctx₁⟩ := updated_of_mem hself t.1 (answer peers t.1 t.2)
    obtain ⟨shares, rfl, hkeys⟩ := updated_ok hctx₁
    have hself' : DrccpServerContext.self { ctx with shares } ∈ Lib.keySet shares := hkeys hself
    obtain ⟨ctx', hrun⟩ := ih hself'
    exact ⟨ctx', .update hctx₁ hrun⟩

/-! ## The boot node and the joiner -/

/-- The reply to a `MEET`. -/
def meetReply (boot : DrccpServerContext φ) (src : DrccpEndpoint) : Message φ :=
  ((setupHeaderResp .new boot).setdest src).settype .ALIVE

/-- The boot node with the source of a `MEET` in its table. -/
def addSource (boot : DrccpServerContext φ) (src : DrccpEndpoint) : DrccpServerContext φ :=
  { boot with shares := boot.shares.insertIfNew src FloatShare.one }

theorem process_meet_eq {boot : DrccpServer φ} {req : Message φ}
    (hcluster : req.cluster = boot.serverCtx.clusterTag) (htype : req.type = .MEET)
    (hversion : req.version = 3) :
    process boot req = (updateShares (addSource boot.serverCtx req.src) req.src req.shares).map
      fun ctx => pushUpdates ⟨ctx, boot.clientCtx⟩ (meetReply boot.serverCtx req.src) [] := by
  rw [process, if_neg (not_not.mpr hcluster), if_neg (by rw [htype]; decide),
    if_neg (not_not.mpr hversion), htype]
  change (updateShares (addSource boot.serverCtx req.src) req.src req.shares >>= _) = _
  cases updateShares (addSource boot.serverCtx req.src) req.src req.shares <;> rfl

/-- **A `MEET` that is answered** adds its source and the endpoints of its shares. -/
theorem process_meet {boot : DrccpServer φ} {req reply : Message φ} {out : Processed φ}
    (htype : req.type = .MEET) (hversion : req.version = 3) (h : process boot req = .ok out)
    (hreply : out.resp = some reply) :
    keySet out.server.serverCtx.shares =
      insert req.src (keySet boot.serverCtx.shares) ∪ (req.shares.map Prod.fst).toFinset ∧
    ∀ neigh sent, SeriesTask.update neigh sent ∈ out.series →
      neigh ∈ keySet out.server.serverCtx.shares := by
  by_cases hcluster : req.cluster = boot.serverCtx.clusterTag
  · rw [process_meet_eq hcluster htype hversion] at h
    obtain ⟨ctx, hctx, rfl⟩ := map_eq_ok.mp h
    obtain ⟨shares, rfl, hkeys⟩ := updateShares_ok hctx
    refine ⟨?_, fun neigh sent hmem =>
      mem_of_mem_pushUpdates (meetReply boot.serverCtx req.src) hmem⟩
    rw [← keySet_insertIfNew _ _ FloatShare.one]
    exact hkeys
  · rw [process, if_pos hcluster] at h
    cases h
    cases hreply

omit [FloatShare φ] in
/-- **The callback of `signin`** adds the endpoints of the reply. -/
theorem signinDone_ok {sender joiner' : DrccpServer φ} {resp : Message φ}
    (h : signinDone sender (some resp) = (0, joiner')) :
    keySet joiner'.serverCtx.shares =
      keySet sender.serverCtx.shares ∪ (resp.shares.map Prod.fst).toFinset := by
  by_cases htype : resp.type = .VERSION
  · simp only [signinDone, htype, if_true] at h
    cases h
  · simp only [signinDone, htype, if_false] at h
    cases h
    exact foldl_insertIfNew_keySet ..

variable {peers : DrccpEndpoint → Option (DrccpServer φ)} {clusterTag : Str}
  {endpoint : DrccpEndpoint} {joiner boot joiner' : DrccpServer φ} {boot' : DrccpServerContext φ}

/-- **What a join leaves**: the boot node has added the endpoint that it was called at, the joiner
has added nothing. -/
theorem Joined.keySet (h : Joined peers clusterTag endpoint joiner boot joiner' boot') :
    keySet boot'.shares = insert endpoint (keySet boot.serverCtx.shares) ∧
      keySet joiner'.serverCtx.shares = keySet joiner.serverCtx.shares := by
  obtain ⟨out, reply, hout, hreply, hupdates, hdone⟩ := h
  obtain ⟨hkeys, hseries⟩ := process_meet rfl rfl hout hreply
  constructor
  · rw [hupdates.keySet hseries, hkeys]
    exact Finset.union_empty _
  · rw [signinDone_ok hdone]
    have hshares : reply.shares = [] := process_resp_shares hout hreply
    change Lib.keySet joiner.serverCtx.shares ∪ (reply.shares.map Prod.fst).toFinset = _
    rw [hshares]
    exact Finset.union_empty _

/-- **Exactly which joins make the joiner a member**: the boot node knew the joiner before, and the
joiner knew the boot node and all its endpoints. -/
theorem joined_member_iff (h : Joined peers clusterTag endpoint joiner boot joiner' boot') :
    Member joiner joiner' boot' ↔
      (joiner.serverCtx.self = endpoint ∨ joiner.serverCtx.self ∈ keySet boot.serverCtx.shares) ∧
      endpoint ∈ keySet joiner.serverCtx.shares ∧
      keySet boot.serverCtx.shares ⊆ keySet joiner.serverCtx.shares := by
  obtain ⟨hboot, hjoiner⟩ := h.keySet
  rw [Member, hboot, hjoiner, Finset.mem_insert, Finset.insert_subset_iff]

/-- **A started node answers a joiner** of its cluster, after whatever has happened to it. -/
theorem joined_of_run (peers : DrccpEndpoint → Option (DrccpServer φ)) {server : DrccpServer φ}
    {es : List (ServerEvent φ)} (h : run serverStep (start server) es = .ok boot)
    (htag : boot.serverCtx.clusterTag = clusterTag) (joiner : DrccpServer φ)
    (endpoint : DrccpEndpoint) :
    ∃ joiner' boot', Joined peers clusterTag endpoint joiner boot joiner' boot' := by
  set req := (signinRequest joiner clusterTag endpoint).2.received
  have hself : (addSource boot.serverCtx endpoint).self ∈
      keySet (addSource boot.serverCtx endpoint).shares := by
    rw [addSource, keySet_insertIfNew]
    exact Finset.mem_insert_of_mem (mem_self_of_run h)
  obtain ⟨ctx, hctx⟩ := updateShares_of_mem hself endpoint []
  have hprocess : process boot req = .ok (pushUpdates ⟨ctx, boot.clientCtx⟩
      (meetReply boot.serverCtx endpoint) []) := by
    rw [process_meet_eq (htag.symm : req.cluster = _) rfl rfl]
    exact congrArg (Except.map _) hctx
  have hctxself : ctx.self ∈ keySet ctx.shares := by
    obtain ⟨shares, rfl, hkeys⟩ := updateShares_ok hctx
    exact hkeys ▸ Finset.mem_union_left _ hself
  obtain ⟨boot', hrun⟩ := exists_updatesRun peers hctxself
    ((neighbours ctx).map fun neigh => (neigh, updateRequest ctx neigh))
  rw [List.map_map] at hrun
  exact ⟨_, boot', _, _, hprocess, rfl, hrun, rfl⟩

/-- A node of the cluster `t` at `a:1`. -/
def bootNode : DrccpServer ℚ :=
  (signinDone (signinRequest (start (setup (lit "a") 1 none none)) (lit "t") (lit "a", 1)).1
    (some (Message.new.settype .ALIVE))).2

theorem run_bootNode : run serverStep (start (setup (lit "a") 1 none none))
    [.signin (lit "t") (lit "a", 1) (some (Message.new.settype .ALIVE))] = .ok bootNode :=
  rfl

/-- A node that signs in at its own endpoint. -/
theorem joined_member_self : ∃ joiner' boot',
    Joined (fun _ => none) (lit "t") (lit "a", 1) (start (setup (lit "a") 1 none none)) bootNode
      joiner' boot' ∧ Member (start (setup (lit "a") 1 none none)) joiner' boot' := by
  obtain ⟨joiner', boot', h⟩ := joined_of_run (fun _ => none) run_bootNode rfl
    (start (setup (lit "a") 1 none none)) (lit "a", 1)
  exact ⟨joiner', boot', h, (joined_member_iff h).mpr ⟨.inl rfl, by decide, by decide⟩⟩

/-- **A join that is lost.** `signin` returns `0` for a node at `j:2`; the boot node has entered its
own endpoint, and the joiner has learnt nothing. -/
theorem join_lost :
    run serverStep (start (setup (lit "a") 1 none none))
      [.signin (lit "t") (lit "a", 1) (some (Message.new.settype .ALIVE))] = .ok bootNode ∧
    ∃ joiner' boot', Joined (fun _ => none) (lit "t") (lit "a", 1)
      (start (setup (lit "j") 2 none none)) bootNode joiner' boot' ∧
    (lit "j", 2) ∉ keySet boot'.shares ∧ (lit "a", 1) ∈ keySet boot'.shares ∧
    (lit "a", 1) ∉ keySet joiner'.serverCtx.shares := by
  obtain ⟨joiner', boot', h⟩ := joined_of_run (fun _ => none) run_bootNode rfl
    (start (setup (lit "j") 2 none none)) (lit "a", 1)
  obtain ⟨hboot, hjoiner⟩ := h.keySet
  refine ⟨run_bootNode, joiner', boot', h, ?_⟩
  rw [hboot, hjoiner]
  decide

end Jxtd.Computation.Drccp
