import Jxtd.Lib.Except
import Jxtd.Lib.Ordered
import Jxtd.Lib.Run
import Jxtd.Computation.Drccp.Message

/-!
# A node of the cluster

The handler `process`, the callbacks of the tasks it starts, `signin` and `logout`
(`computation/drccp/server.cc`). A node keeps a table of shares, one for each endpoint it knows.

* `updateShares`, `process`, `updated`, `signinRequest`, `signinDone`: the functions of the source.
* `selectBestTarget`: the node that a submission is forwarded to.
* `updateShares_ok`, `process_meet`, `keySet_process`: which endpoints an update or a request adds.
* `serverStep`: what can happen to a node; **`mem_self_of_run`**: it stays in its own table.
-/

namespace Jxtd.Computation.Drccp

open Lib Std

/-- What the code does not survive: no entry of its own in the table (`update_shares` dereferences
`end()`), a payload without a callback, a reference that no longer finds the node. -/
inductive Fault
  | noOwnShare
  | badFunctionCall
  | dangling

/-- `DrccpServerContext`, without the sockets. -/
structure DrccpServerContext (φ : Type) where
  addr : Str
  port : Int32
  clusterTag : Str
  shares : TreeMap DrccpEndpoint φ
  /-- `payload_process`, when one is registered. -/
  payloadProcess : Option (Str → Str)
  /-- What `result_process` has been called with, when one is registered. -/
  resultProcess : Option (List Str)

/-- `DrccpClientContext`: the endpoint that the next request names as its source. -/
structure DrccpClientContext where
  addr : Str
  port : Int32

/-- `DrccpServer`. -/
structure DrccpServer (φ : Type) where
  serverCtx : DrccpServerContext φ
  clientCtx : DrccpClientContext

/-- A task that the handler adds to the series of a request. -/
inductive SeriesTask (φ : Type)
  /-- The repeater of `forward_task_repeater`. -/
  | forward
  /-- A `HELLO` to a neighbour. -/
  | update (neigh : DrccpEndpoint) (req : Message φ)

/-- What `process` leaves: the node, the response unless `noreply` was called, the series. -/
structure Processed (φ : Type) where
  server : DrccpServer φ
  resp : Option (Message φ)
  series : List (SeriesTask φ)

variable {φ : Type}

/-- The endpoint of the node. -/
def DrccpServerContext.self (ctx : DrccpServerContext φ) : DrccpEndpoint := (ctx.addr, ctx.port)

/-! ## The ring of the shares -/

section Ring

variable [FloatShare φ]

/-- `hashcode`; a `char` is signed. -/
def hashcode (src : DrccpEndpoint) : UInt32 :=
  (src.1.zipIdx.foldl fun code (c, i) =>
    (code * 31 + c.toInt8.toInt32.toUInt32) ^^^ (src.2 <<< (Int32.ofNat (i % 32))).toUInt32) 0

/-- The places of an endpoint on the ring. -/
def places (endpoint : DrccpEndpoint) (share : φ) : List UInt32 :=
  let nodeLimit := FloatShare.nodeLimit share
  (List.range nodeLimit.toInt.toNat).map fun i =>
    hashcode endpoint + 0xffffffff / nodeLimit.toUInt32 * UInt32.ofNat i

theorem nodeLimit_ne_zero {endpoint : DrccpEndpoint} {share : φ} {code : UInt32}
    (h : code ∈ places endpoint share) : FloatShare.nodeLimit share ≠ 0 := by
  intro hzero
  rw [places, hzero] at h
  exact List.not_mem_nil h

/-- `hash_cycle`; a place that is taken stays. -/
def hashCycle (shares : TreeMap DrccpEndpoint φ) : TreeMap UInt32 DrccpEndpoint :=
  ofInserts (shares.toList.flatMap fun e => (places e.1 e.2).map fun place => (place, e.1))

/-- `for(code = code + 1;code != code;code++)`: the condition never holds. -/
def walk (_cycle : TreeMap UInt32 DrccpEndpoint) (code : UInt32) : Option DrccpEndpoint :=
  if h : code ≠ code then absurd rfl h else none

/-- `select_best_target`. -/
def selectBestTarget (ctx : DrccpServerContext φ) (source : DrccpEndpoint) : DrccpEndpoint :=
  let cycle := hashCycle ctx.shares
  let code := hashcode source
  match cycle[code]? with
  | some endpoint => endpoint
  | none => (walk cycle (code + 1)).getD ctx.self

end Ring

/-! ## Updates of the shares -/

section Update

variable [FloatShare φ]

/-- The loop body of `update_shares`. -/
def updateShare (selfShare peerShare : φ) (shares : TreeMap DrccpEndpoint φ)
    (entry : DrccpEndpoint × φ) : TreeMap DrccpEndpoint φ :=
  match shares[entry.1]? with
  | some share =>
    shares.insert entry.1 (FloatShare.average share selfShare entry.2 peerShare)
  | none => shares.insertIfNew entry.1 (FloatShare.discount entry.2)

/-- `update_shares`. -/
def updateShares (ctx : DrccpServerContext φ) (peer : DrccpEndpoint)
    (shares : List (DrccpEndpoint × φ)) : Except Fault (DrccpServerContext φ) :=
  let peerShare := ctx.shares[peer]?.getD FloatShare.one
  match ctx.shares[ctx.self]? with
  | none => .error .noOwnShare
  | some selfShare => .ok { ctx with shares := shares.foldl (updateShare selfShare peerShare) ctx.shares }

/-- The callback of an update task; `none` stands for a task that failed. It refers to `server_ctx`, a
parameter of `process`, which has returned: `found` says whether the reference still finds the node. -/
def updated (found : Bool) (ctx : DrccpServerContext φ) (neigh : DrccpEndpoint)
    (resp : Option (Message φ)) : Except Fault (DrccpServerContext φ) :=
  if !found then .error .dangling
  else
    match resp with
    | none => .ok { ctx with shares := ctx.shares.insert neigh FloatShare.zero }
    | some resp => updateShares ctx neigh resp.shares

/-- The callback of a forward task, as far as the node is concerned. -/
def forwarded (ctx : DrccpServerContext φ) (target : DrccpEndpoint) (resp : Option (Message φ)) :
    DrccpServerContext φ :=
  match resp with
  | none => { ctx with shares := ctx.shares.insert target FloatShare.zero }
  | some resp =>
    { ctx with
      resultProcess := ctx.resultProcess.map (· ++ [resp.raw])
      shares := ctx.shares.insert target
        (FloatShare.addHalf (ctx.shares[target]?.getD FloatShare.zero)) }

end Update

/-! ## The handler -/

/-- `setup_header_resp`. -/
def setupHeaderResp (resp : Message φ) (ctx : DrccpServerContext φ) : Message φ :=
  ((resp.setversion 3).settag ctx.clusterTag (lit "unused")).setsrc ctx.self

/-- `setup_header_req`. -/
def setupHeaderReq (req : Message φ) (ctx : DrccpServerContext φ) (clientCtx : DrccpClientContext) :
    Message φ :=
  ((req.setversion 3).settag ctx.clusterTag (lit "unused")).setsrc (clientCtx.addr, clientCtx.port)

/-- The neighbours that are told of a request: all but the node itself. -/
def neighbours (ctx : DrccpServerContext φ) : List DrccpEndpoint :=
  (ctx.shares.toList.map Prod.fst).filter fun neigh => neigh ≠ ctx.self

/-- The request of an update task. -/
def updateRequest (ctx : DrccpServerContext φ) (neigh : DrccpEndpoint) : Message φ :=
  ((setupHeaderReq .new ctx ⟨ctx.addr, ctx.port⟩).setdest neigh).settype .HELLO

section Handler

variable [FloatShare φ]

/-- The update tasks pushed after a request. -/
def pushUpdates (server : DrccpServer φ) (resp : Message φ) (series : List (SeriesTask φ)) :
    Processed φ :=
  let ctx := server.serverCtx
  { server :=
      { serverCtx := ctx
        clientCtx := if neighbours ctx = [] then server.clientCtx else ⟨ctx.addr, ctx.port⟩ }
    resp := some resp
    series := series ++ (neighbours ctx).map fun neigh => .update neigh (updateRequest ctx neigh) }

/-- `process`. -/
def process (server : DrccpServer φ) (req : Message φ) : Except Fault (Processed φ) :=
  let ctx := server.serverCtx
  if req.cluster ≠ ctx.clusterTag then .ok ⟨server, none, []⟩
  else if req.type = .UNKNOWN then .ok ⟨server, none, []⟩
  else
    let resp := (setupHeaderResp .new ctx).setdest req.src
    if req.version ≠ 3 then .ok ⟨server, some (resp.settype .VERSION), []⟩
    else
      match req.type with
      | .MEET => do
        let ctx := { ctx with shares := ctx.shares.insertIfNew req.src FloatShare.one }
        let ctx ← updateShares ctx req.src req.shares
        .ok (pushUpdates { server with serverCtx := ctx } (resp.settype .ALIVE) [])
      | .HELLO => do
        let ctx ← updateShares ctx req.src req.shares
        .ok ⟨{ server with serverCtx := ctx }, some (resp.settype .ALIVE), []⟩
      | .LOCAL => .ok (pushUpdates server resp [.forward])
      | .FORWARD =>
        match ctx.payloadProcess with
        | none => .error .badFunctionCall
        | some payloadProcess =>
          let resp := (resp.settype .RESULT).setraw (payloadProcess req.raw)
          let ctx := { ctx with
            shares := ctx.shares.insert ctx.self
              (FloatShare.addHalf (ctx.shares[ctx.self]?.getD FloatShare.zero)) }
          .ok (pushUpdates { server with serverCtx := ctx } resp [])
      | _ => .ok (pushUpdates server resp [])

end Handler

/-! ## Joining and leaving -/

/-- What `signin` sends. -/
def signinRequest (server : DrccpServer φ) (clusterTag : Str) (boot : DrccpEndpoint) :
    DrccpServer φ × Message φ :=
  let ctx := { server.serverCtx with clusterTag }
  let clientCtx := ⟨ctx.addr, ctx.port⟩
  (⟨ctx, clientCtx⟩, ((setupHeaderReq .new ctx clientCtx).setdest boot).settype .MEET)

/-- The callback of `signin` and its return; `none` stands for a task that failed. -/
def signinDone (server : DrccpServer φ) (resp : Option (Message φ)) : Int × DrccpServer φ :=
  let failed := (-1, { server with serverCtx := { server.serverCtx with clusterTag := [] } })
  match resp with
  | none => failed
  | some resp =>
    if resp.type = .VERSION then failed
    else
      (0, { server with serverCtx :=
        { server.serverCtx with
          shares := resp.shares.foldl (fun t e => t.insertIfNew e.1 e.2) server.serverCtx.shares } })

/-- `logout`. -/
def logout (server : DrccpServer φ) : DrccpServer φ :=
  { server with serverCtx := { server.serverCtx with clusterTag := [] } }

/-- `DrccpServer()` and `setup`. -/
def setup (addr : Str) (port : Int32) (payloadProcess : Option (Str → Str))
    (resultProcess : Option (List Str)) : DrccpServer φ :=
  ⟨⟨addr, port, [], ∅, payloadProcess, resultProcess⟩, ⟨[], 0⟩⟩

/-- `start`. -/
def start [FloatShare φ] (server : DrccpServer φ) : DrccpServer φ :=
  { server with serverCtx := { server.serverCtx with
      shares := server.serverCtx.shares.insertIfNew server.serverCtx.self FloatShare.one } }

/-! ## Which endpoints are known afterwards -/

section Known

variable [FloatShare φ]

theorem keySet_updateShare (selfShare peerShare : φ) (shares : TreeMap DrccpEndpoint φ)
    (entry : DrccpEndpoint × φ) :
    keySet (updateShare selfShare peerShare shares entry) = insert entry.1 (keySet shares) := by
  rw [updateShare]
  split
  · exact keySet_store ..
  · exact keySet_insertIfNew ..

theorem keySet_foldl_updateShare (selfShare peerShare : φ) (shares : TreeMap DrccpEndpoint φ)
    (entries : List (DrccpEndpoint × φ)) :
    keySet (entries.foldl (updateShare selfShare peerShare) shares) =
      keySet shares ∪ (entries.map Prod.fst).toFinset := by
  induction entries generalizing shares with
  | nil => simp
  | cons e entries ih =>
    rw [List.foldl_cons, ih, keySet_updateShare, List.map_cons, List.toFinset_cons,
      Finset.insert_union, Finset.union_insert]

/-- **What an update of the shares adds**: the endpoints of its entries. -/
theorem updateShares_ok {ctx ctx' : DrccpServerContext φ} {peer : DrccpEndpoint}
    {entries : List (DrccpEndpoint × φ)} (h : updateShares ctx peer entries = .ok ctx') :
    ∃ shares, ctx' = { ctx with shares } ∧
      keySet shares = keySet ctx.shares ∪ (entries.map Prod.fst).toFinset := by
  rw [updateShares] at h
  split at h
  · cases h
  · cases h
    exact ⟨_, rfl, keySet_foldl_updateShare ..⟩

theorem updateShares_of_mem {ctx : DrccpServerContext φ} (h : ctx.self ∈ keySet ctx.shares)
    (peer : DrccpEndpoint) (entries : List (DrccpEndpoint × φ)) :
    ∃ ctx', updateShares ctx peer entries = .ok ctx' := by
  obtain ⟨share, hshare⟩ := mem_keySet_iff_get.mp h
  exact ⟨_, by rw [updateShares, hshare]⟩

theorem updated_of_mem {ctx : DrccpServerContext φ} (h : ctx.self ∈ keySet ctx.shares)
    (neigh : DrccpEndpoint) (resp : Option (Message φ)) :
    ∃ ctx', updated true ctx neigh resp = .ok ctx' := by
  cases resp with
  | none => exact ⟨_, rfl⟩
  | some resp => exact updateShares_of_mem h neigh resp.shares

/-- A callback that ends has found the node. -/
theorem found_of_updated {found : Bool} {ctx ctx' : DrccpServerContext φ} {neigh : DrccpEndpoint}
    {resp : Option (Message φ)} (h : updated found ctx neigh resp = .ok ctx') : found = true := by
  cases found with
  | true => rfl
  | false => cases h

theorem updated_ok {found : Bool} {ctx ctx' : DrccpServerContext φ} {neigh : DrccpEndpoint}
    {resp : Option (Message φ)} (h : updated found ctx neigh resp = .ok ctx') :
    ∃ shares, ctx' = { ctx with shares } ∧ keySet ctx.shares ⊆ keySet shares := by
  obtain rfl := found_of_updated h
  cases resp with
  | none =>
    cases h
    refine ⟨_, rfl, ?_⟩
    rw [keySet_store]
    exact Finset.subset_insert ..
  | some resp =>
    obtain ⟨shares, hctx, hkeys⟩ := updateShares_ok h
    exact ⟨shares, hctx, hkeys ▸ Finset.subset_union_left⟩

/-- The parts of a node that no message changes, and the endpoints it knows already. -/
structure Extends (ctx ctx' : DrccpServerContext φ) : Prop where
  addr : ctx'.addr = ctx.addr
  port : ctx'.port = ctx.port
  keys : keySet ctx.shares ⊆ keySet ctx'.shares

omit [FloatShare φ] in
theorem Extends.refl (ctx : DrccpServerContext φ) : Extends ctx ctx := ⟨rfl, rfl, subset_rfl⟩

theorem Extends.of_updateShares {ctx ctx' : DrccpServerContext φ} {peer : DrccpEndpoint}
    {entries : List (DrccpEndpoint × φ)} (h : updateShares ctx peer entries = .ok ctx') :
    Extends ctx ctx' := by
  obtain ⟨shares, rfl, hkeys⟩ := updateShares_ok h
  exact ⟨rfl, rfl, hkeys ▸ Finset.subset_union_left⟩

/-- **A request to a node** leaves it with all the endpoints it knew. -/
theorem Extends.of_process {server : DrccpServer φ} {req : Message φ} {out : Processed φ}
    (h : process server req = .ok out) : Extends server.serverCtx out.server.serverCtx := by
  rw [process] at h
  split_ifs at h
  · cases h
    exact .refl _
  · cases h
    exact .refl _
  · cases h
    exact .refl _
  · split at h
    · obtain ⟨ctx, hctx, h⟩ := bind_eq_ok.mp h
      cases h
      obtain ⟨haddr, hport, hkeys⟩ := Extends.of_updateShares hctx
      refine ⟨haddr, hport, Finset.Subset.trans ?_ hkeys⟩
      rw [keySet_insertIfNew]
      exact Finset.subset_insert ..
    · obtain ⟨ctx, hctx, h⟩ := bind_eq_ok.mp h
      cases h
      exact .of_updateShares hctx
    · cases h
      exact .refl _
    · split at h
      · cases h
      · cases h
        refine ⟨rfl, rfl, ?_⟩
        change _ ⊆ keySet (TreeMap.insert _ _ _)
        rw [keySet_store]
        exact Finset.subset_insert ..
    · cases h
      exact .refl _

omit [FloatShare φ] in
theorem Extends.of_signinDone (server : DrccpServer φ) (resp : Option (Message φ)) :
    Extends server.serverCtx (signinDone server resp).2.serverCtx := by
  cases resp with
  | none => exact ⟨rfl, rfl, subset_rfl⟩
  | some resp =>
    by_cases hversion : resp.type = .VERSION
    · simp only [signinDone, hversion, if_true]
      exact ⟨rfl, rfl, subset_rfl⟩
    · simp only [signinDone, hversion, if_false]
      refine ⟨rfl, rfl, ?_⟩
      rw [foldl_insertIfNew_keySet]
      exact Finset.subset_union_left

end Known

/-! ## The life of a node -/

/-- What happens to a node that was started. -/
inductive ServerEvent (φ : Type)
  | request (req : Message φ)
  | updated (neigh : DrccpEndpoint) (resp : Option (Message φ)) (found : Bool)
  | forwarded (target : DrccpEndpoint) (resp : Option (Message φ))
  | signin (clusterTag : Str) (boot : DrccpEndpoint) (resp : Option (Message φ))
  | logout

variable [FloatShare φ]

/-- One event. -/
def serverStep (server : DrccpServer φ) : ServerEvent φ → Except Fault (DrccpServer φ)
  | .request req => (process server req).map Processed.server
  | .updated neigh resp found =>
    (Drccp.updated found server.serverCtx neigh resp).map fun ctx => { server with serverCtx := ctx }
  | .forwarded target resp =>
    .ok { server with serverCtx := Drccp.forwarded server.serverCtx target resp }
  | .signin clusterTag boot resp =>
    .ok (signinDone (signinRequest server clusterTag boot).1 resp).2
  | .logout => .ok (Drccp.logout server)

theorem Extends.of_serverStep {server server' : DrccpServer φ} {e : ServerEvent φ}
    (h : serverStep server e = .ok server') : Extends server.serverCtx server'.serverCtx := by
  cases e with
  | request req =>
    obtain ⟨out, hout, rfl⟩ := map_eq_ok.mp h
    exact .of_process hout
  | updated neigh resp found =>
    obtain ⟨ctx, hctx, rfl⟩ := map_eq_ok.mp h
    obtain ⟨shares, rfl, hkeys⟩ := updated_ok hctx
    exact ⟨rfl, rfl, hkeys⟩
  | forwarded target resp =>
    cases h
    cases resp with
    | none => exact ⟨rfl, rfl, by simp [Drccp.forwarded]⟩
    | some resp => exact ⟨rfl, rfl, by simp [Drccp.forwarded]⟩
  | signin clusterTag boot resp =>
    cases h
    obtain ⟨haddr, hport, hkeys⟩ :=
      Extends.of_signinDone (signinRequest server clusterTag boot).1 resp
    exact ⟨haddr, hport, hkeys⟩
  | logout =>
    cases h
    exact ⟨rfl, rfl, subset_rfl⟩

/-- **A node that was started is in its own table.** -/
theorem mem_self_of_run {server server' : DrccpServer φ} {es : List (ServerEvent φ)}
    (h : run serverStep (start server) es = .ok server') :
    server'.serverCtx.self ∈ keySet server'.serverCtx.shares := by
  refine run_invariant (I := fun s => s.serverCtx.self ∈ keySet s.serverCtx.shares)
    (fun s s' e hs hstep => ?_) ?_ h
  · obtain ⟨haddr, hport, hkeys⟩ := Extends.of_serverStep hstep
    rw [DrccpServerContext.self, haddr, hport]
    exact hkeys hs
  · change server.serverCtx.self ∈ keySet (server.serverCtx.shares.insertIfNew _ _)
    rw [keySet_insertIfNew]
    exact Finset.mem_insert_self ..

end Jxtd.Computation.Drccp
