import Jxtd.Computation.Drccp.Traffic

/-!
# The shares of a node

`update_shares` divides by the share of the node and that of a peer (`computation/drccp/server.cc`).
Here it does so exactly, and a division by zero has no value.

* `Busy`, `busyStep`, `Reached`: a node with the tasks it has started, and its runs.
* `WellDefined`: the shares are numbers from zero on.
* `Positive`: so they are, and the node has a share of its own.
* `Positive.updateShares`, `Positive.busyStep`: what keeps that; a forward to the node itself that
  fails does not.
* **`wellDefined_of_reached`**: the shares of a node that reaches itself are well defined.
-/

namespace Jxtd.Computation.Drccp

open Lib Std

/-- `int(share * 4)`. -/
def nodeCount (q : ℚ) : ℤ := (q * 4).num.tdiv (q * 4).den

/-- Shares without rounding; `none` is the quotient by zero and what is computed from it. -/
instance : FloatShare (Option ℚ) where
  one := some FloatShare.one
  zero := some FloatShare.zero
  addHalf s := s.map FloatShare.addHalf
  average
    | some s, some self, some neigh, some peer =>
      if 3 / 2 * (self + peer) = 0 then none else some (FloatShare.average s self neigh peer)
    | _, _, _, _ => none
  discount s := s.map FloatShare.discount
  nodeLimit s := Int32.ofInt (nodeCount (s.getD 0))
  nodeLimit_zero := by
    show Int32.ofInt (nodeCount 0) = 0
    simp [nodeCount]

/-- **The shares are well defined**: numbers that are not negative, as their node counts are not. -/
def WellDefined (shares : TreeMap DrccpEndpoint (Option ℚ)) : Prop :=
  ∀ (endpoint : DrccpEndpoint) (share : Option ℚ), shares[endpoint]? = some share →
    ∃ q, share = some q ∧ 0 ≤ q ∧ 0 ≤ nodeCount q

/-! ## Runs of a node -/

/-- A node and the tasks that it has started. -/
structure Busy (φ : Type) where
  server : DrccpServer φ
  series : List (SeriesTask φ)

section Runs

variable {φ : Type} [FloatShare φ]

/-- The tasks that an event starts. -/
def startedTasks (server : DrccpServer φ) : ServerEvent φ → List (SeriesTask φ)
  | .request req =>
    match process server req with
    | .ok out => out.series
    | .error _ => []
  | _ => []

/-- One event. -/
def busyStep (node : Busy φ) (e : ServerEvent φ) : Except Fault (Busy φ) :=
  (serverStep node.server e).map fun server => ⟨server, node.series ++ startedTasks node.server e⟩

/-- A callback is one of a task that was started. -/
def Started (series : List (SeriesTask φ)) : ServerEvent φ → Prop
  | .updated neigh _ _ => ∃ req, .update neigh req ∈ series
  | .forwarded _ _ => .forward ∈ series
  | _ => True

/-- What a node becomes by some events, none of which is a fault: every update callback has found the
node. -/
inductive Reached (server : DrccpServer φ) : List (ServerEvent φ) → Busy φ → Prop
  | start : Reached server [] ⟨server, []⟩
  | step {es node node' e} (h : Reached server es node) (hstarted : Started node.series e)
      (hstep : busyStep node e = .ok node') : Reached server (es ++ [e]) node'

end Runs

/-- The shares that a message carries are not negative. -/
def Message.Nonneg (m : Message (Option ℚ)) : Prop :=
  ∀ entry ∈ m.shares, ∃ q, entry.2 = some q ∧ 0 ≤ q

/-- The shares that come with an event are not negative. -/
def ServerEvent.Nonneg : ServerEvent (Option ℚ) → Prop
  | .request req => req.Nonneg
  | .updated _ (some resp) _ => resp.Nonneg
  | .forwarded _ (some resp) => resp.Nonneg
  | .signin _ _ (some resp) => resp.Nonneg
  | _ => True

/-! ## Positive tables -/

/-- **The shares are not negative**, and that of the node itself is positive. -/
structure Positive (me : DrccpEndpoint) (shares : TreeMap DrccpEndpoint (Option ℚ)) : Prop where
  nonneg : ∀ (endpoint : DrccpEndpoint) (share : Option ℚ), shares[endpoint]? = some share →
    ∃ q, share = some q ∧ 0 ≤ q
  own : ∃ q, shares[me]? = some (some q) ∧ 0 < q

theorem nodeCount_nonneg {q : ℚ} (h : 0 ≤ q) : 0 ≤ nodeCount q := by
  have hnum : 0 ≤ (q * 4).num := Rat.num_nonneg.mpr (mul_nonneg h (by norm_num))
  exact Int.tdiv_nonneg hnum (Int.natCast_nonneg _)

section Positive

variable {me : DrccpEndpoint} {shares : TreeMap DrccpEndpoint (Option ℚ)} {k : DrccpEndpoint}
  {q selfShare peerShare neighShare : ℚ}

theorem Positive.wellDefined (h : Positive me shares) : WellDefined shares := by
  intro endpoint share hshare
  obtain ⟨q, hq, hnonneg⟩ := h.nonneg endpoint share hshare
  exact ⟨q, hq, hnonneg, nodeCount_nonneg hnonneg⟩

theorem Positive.store (h : Positive me shares) (hq : 0 ≤ q) (hself : k = me → 0 < q) :
    Positive me (shares.insert k (some q)) := by
  refine ⟨fun endpoint share hshare => ?_, ?_⟩
  · rw [get_store] at hshare
    split_ifs at hshare
    · cases hshare
      exact ⟨q, rfl, hq⟩
    · exact h.nonneg endpoint share hshare
  · rw [get_store]
    split_ifs with hk
    · exact ⟨q, rfl, hself hk⟩
    · exact h.own

theorem Positive.insertIfNew (h : Positive me shares) (hq : 0 ≤ q) (k : DrccpEndpoint) :
    Positive me (shares.insertIfNew k (some q)) := by
  refine ⟨fun endpoint share hshare => ?_, ?_⟩
  · rw [get_insertIfNew] at hshare
    split_ifs at hshare
    · cases hold : shares[endpoint]? with
      | none =>
        rw [hold] at hshare
        cases hshare
        exact ⟨q, rfl, hq⟩
      | some old =>
        rw [hold] at hshare
        cases hshare
        exact h.nonneg endpoint old hold
    · exact h.nonneg endpoint share hshare
  · obtain ⟨own, hown, hpos⟩ := h.own
    refine ⟨own, ?_, hpos⟩
    rw [get_insertIfNew, hown]
    split_ifs <;> rfl

/-! ## Updates -/

/-- **A share is averaged**: the divisor is not zero. -/
theorem average_eq (hself : 0 < selfShare) (hpeer : 0 ≤ peerShare) :
    FloatShare.average (some q) (some selfShare) (some neighShare) (some peerShare) =
      some ((q * selfShare + neighShare * peerShare) / (3 / 2 * (selfShare + peerShare))) := by
  have hdivisor : 3 / 2 * (selfShare + peerShare) ≠ 0 := by positivity
  exact if_neg hdivisor

theorem Positive.updateShare (h : Positive me shares) (hself : 0 < selfShare)
    (hpeer : 0 ≤ peerShare) (hneigh : 0 ≤ neighShare) :
    Positive me (updateShare (some selfShare) (some peerShare) shares (k, some neighShare)) := by
  rw [Drccp.updateShare]
  dsimp only
  cases hk : shares[k]? with
  | none =>
    have hdiscount : 0 ≤ neighShare / (3 / 2) := by positivity
    exact h.insertIfNew hdiscount k
  | some share =>
    obtain ⟨q, rfl, hq⟩ := h.nonneg k share hk
    have hown : k = me → 0 < q := by
      rintro rfl
      obtain ⟨own, hown, hpos⟩ := h.own
      rw [hk] at hown
      cases hown
      exact hpos
    dsimp only
    rw [average_eq hself hpeer]
    refine h.store (by positivity) fun hkself => ?_
    have := hown hkself
    positivity

theorem Positive.foldl_updateShare {entries : List (DrccpEndpoint × Option ℚ)}
    (h : Positive me shares) (hself : 0 < selfShare) (hpeer : 0 ≤ peerShare)
    (hentries : ∀ entry ∈ entries, ∃ q, entry.2 = some q ∧ 0 ≤ q) :
    Positive me (entries.foldl (Drccp.updateShare (some selfShare) (some peerShare)) shares) := by
  induction entries generalizing shares with
  | nil => exact h
  | cons entry entries ih =>
    obtain ⟨k, share⟩ := entry
    obtain ⟨⟨q, hq, hnonneg⟩, hrest⟩ := List.forall_mem_cons.mp hentries
    obtain rfl : share = some q := hq
    exact ih (h.updateShare hself hpeer hnonneg) hrest

end Positive

variable {ctx ctx' : DrccpServerContext (Option ℚ)} {server server' : DrccpServer (Option ℚ)}
  {peer : DrccpEndpoint} {req resp : Message (Option ℚ)} {e : ServerEvent (Option ℚ)}
  {node node' : Busy (Option ℚ)} {es : List (ServerEvent (Option ℚ))}

/-- **An update of the shares** never divides by zero while the node has a share of its own. -/
theorem Positive.updateShares {entries : List (DrccpEndpoint × Option ℚ)}
    (h : Positive ctx.self ctx.shares) (hentries : ∀ entry ∈ entries, ∃ q, entry.2 = some q ∧ 0 ≤ q)
    (hupdate : updateShares ctx peer entries = .ok ctx') : Positive ctx'.self ctx'.shares := by
  obtain ⟨own, hown, hpos⟩ := h.own
  have hpeer : ∃ q, ctx.shares[peer]?.getD FloatShare.one = some q ∧ 0 ≤ q := by
    cases hfind : ctx.shares[peer]? with
    | none => exact ⟨1, rfl, zero_le_one⟩
    | some share => exact h.nonneg peer share hfind
  obtain ⟨peerShare, hpeerShare, hnonneg⟩ := hpeer
  rw [Drccp.updateShares, hown, hpeerShare] at hupdate
  cases hupdate
  exact h.foldl_updateShare hpos hnonneg hentries

/-- Half a share more. -/
theorem Positive.addHalf (h : Positive ctx.self ctx.shares) (k : DrccpEndpoint) :
    Positive ctx.self
      (ctx.shares.insert k (FloatShare.addHalf (ctx.shares[k]?.getD FloatShare.zero))) := by
  have hshare : ∃ q, ctx.shares[k]?.getD FloatShare.zero = some q ∧ 0 ≤ q := by
    cases hfind : ctx.shares[k]? with
    | none => exact ⟨0, rfl, le_rfl⟩
    | some share => exact h.nonneg k share hfind
  obtain ⟨q, hq, hnonneg⟩ := hshare
  rw [hq]
  have hpos : 0 < q + 1 / 2 := by positivity
  exact h.store hpos.le fun _ => hpos

/-! ## Events -/

theorem Positive.process {out : Processed (Option ℚ)}
    (h : Positive server.serverCtx.self server.serverCtx.shares) (hreq : req.Nonneg)
    (hout : process server req = .ok out) :
    Positive out.server.serverCtx.self out.server.serverCtx.shares := by
  rw [Drccp.process] at hout
  split_ifs at hout
  · cases hout
    exact h
  · cases hout
    exact h
  · cases hout
    exact h
  · split at hout
    · obtain ⟨ctx, hctx, hout⟩ := bind_eq_ok.mp hout
      cases hout
      refine Positive.updateShares ?_ hreq hctx
      exact h.insertIfNew zero_le_one req.src
    · obtain ⟨ctx, hctx, hout⟩ := bind_eq_ok.mp hout
      cases hout
      exact h.updateShares hreq hctx
    · cases hout
      exact h
    · split at hout
      · cases hout
      · cases hout
        exact h.addHalf _
    · cases hout
      exact h

theorem Positive.signinDone {resp : Option (Message (Option ℚ))}
    (h : Positive server.serverCtx.self server.serverCtx.shares)
    (hresp : ∀ m, resp = some m → m.Nonneg) :
    Positive (signinDone server resp).2.serverCtx.self
      (signinDone server resp).2.serverCtx.shares := by
  have hinsert {entries : List (DrccpEndpoint × Option ℚ)}
      {shares : TreeMap DrccpEndpoint (Option ℚ)} {me : DrccpEndpoint}
      (h : Positive me shares) (hentries : ∀ entry ∈ entries, ∃ q, entry.2 = some q ∧ 0 ≤ q) :
      Positive me (entries.foldl (fun t e => t.insertIfNew e.1 e.2) shares) := by
    induction entries generalizing shares with
    | nil => exact h
    | cons entry entries ih =>
      obtain ⟨k, share⟩ := entry
      obtain ⟨⟨q, hq, hnonneg⟩, hrest⟩ := List.forall_mem_cons.mp hentries
      obtain rfl : share = some q := hq
      exact ih (h.insertIfNew hnonneg k) hrest
  cases resp with
  | none => exact h
  | some m =>
    rw [Drccp.signinDone]
    dsimp only
    split_ifs
    · exact h
    · exact hinsert h (hresp m rfl)

/-- **An event keeps the shares positive**, unless it is the end of a forward to the node itself. -/
theorem Positive.serverStep (h : Positive server.serverCtx.self server.serverCtx.shares)
    (he : e.Nonneg)
    (hupdated : ∀ neigh resp found, e = .updated neigh resp found → neigh ≠ server.serverCtx.self)
    (hforwarded : ∀ target, e = .forwarded target none → target ≠ server.serverCtx.self)
    (hstep : serverStep server e = .ok server') :
    Positive server'.serverCtx.self server'.serverCtx.shares := by
  cases e with
  | request req =>
    obtain ⟨out, hout, rfl⟩ := map_eq_ok.mp hstep
    exact h.process he hout
  | updated neigh resp found =>
    obtain ⟨ctx, hctx, rfl⟩ := map_eq_ok.mp hstep
    obtain rfl := found_of_updated hctx
    cases resp with
    | none =>
      cases hctx
      exact h.store le_rfl fun hk => absurd hk (hupdated neigh none true rfl)
    | some resp => exact h.updateShares he hctx
  | forwarded target resp =>
    cases hstep
    cases resp with
    | none => exact h.store le_rfl fun hk => absurd hk (hforwarded target rfl)
    | some resp => exact h.addHalf target
  | signin clusterTag boot resp =>
    cases hstep
    refine Positive.signinDone h fun m hm => ?_
    subst hm
    exact he
  | logout =>
    cases hstep
    exact h

section Tasks

variable {φ : Type} [FloatShare φ]

omit [FloatShare φ] in
theorem Extends.self_eq {ctx ctx' : DrccpServerContext φ} (h : Extends ctx ctx') :
    ctx'.self = ctx.self := by
  rw [DrccpServerContext.self, h.addr, h.port]
  rfl

theorem update_mem_series {server : DrccpServer φ} {req m : Message φ} {out : Processed φ}
    {neigh : DrccpEndpoint} (h : process server req = .ok out)
    (hmem : .update neigh m ∈ out.series) : neigh ≠ server.serverCtx.self := by
  have hself := (Extends.of_process h).self_eq
  rw [(process_series h).2] at hmem
  rcases List.mem_append.mp hmem with hforward | hupdate
  · split_ifs at hforward <;> simp at hforward
  · split_ifs at hupdate
    · obtain ⟨n, hn, heq⟩ := List.mem_map.mp hupdate
      cases heq
      rw [← hself]
      simpa using (List.mem_filter.mp hn).2
    · cases hupdate

/-- An event starts no update of the node itself. -/
theorem update_mem_startedTasks {server : DrccpServer φ} {e : ServerEvent φ} {m : Message φ}
    {neigh : DrccpEndpoint} (h : .update neigh m ∈ startedTasks server e) :
    neigh ≠ server.serverCtx.self := by
  cases e with
  | request req =>
    rw [startedTasks] at h
    split at h
    · rename_i out hout
      exact update_mem_series hout h
    · cases h
  | updated neigh resp found => cases h
  | forwarded target resp => cases h
  | signin clusterTag boot resp => cases h
  | logout => cases h

/-- Among the tasks of a node is no update of the node itself. -/
def TellsOthers (node : Busy φ) : Prop :=
  ∀ neigh m, .update neigh m ∈ node.series → neigh ≠ node.server.serverCtx.self

/-- **An event** leaves a node its endpoint, and starts no update of it. -/
theorem TellsOthers.busyStep {node node' : Busy φ} {e : ServerEvent φ} (h : TellsOthers node)
    (hstep : busyStep node e = .ok node') :
    node'.server.serverCtx.self = node.server.serverCtx.self ∧ TellsOthers node' := by
  obtain ⟨server, hserver, rfl⟩ := map_eq_ok.mp hstep
  have hself := (Extends.of_serverStep hserver).self_eq
  refine ⟨hself, fun neigh m hmem => ?_⟩
  rw [hself]
  rcases List.mem_append.mp hmem with hold | hnew
  · exact h neigh m hold
  · exact update_mem_startedTasks hnew

end Tasks

theorem Positive.busyStep (h : Positive node.server.serverCtx.self node.server.serverCtx.shares)
    (htells : TellsOthers node) (hstarted : Started node.series e) (he : e.Nonneg)
    (hforwarded : ∀ target, e = .forwarded target none → target ≠ node.server.serverCtx.self)
    (hstep : busyStep node e = .ok node') :
    Positive node'.server.serverCtx.self node'.server.serverCtx.shares := by
  have hupdated (neigh : DrccpEndpoint) (resp : Option (Message (Option ℚ))) (found : Bool)
      (heq : e = .updated neigh resp found) : neigh ≠ node.server.serverCtx.self := by
    subst heq
    obtain ⟨m, hm⟩ := hstarted
    exact htells neigh m hm
  obtain ⟨server, hserver, rfl⟩ := map_eq_ok.mp hstep
  exact h.serverStep he hupdated hforwarded hserver

/-! ## Runs -/

/-- A node that was started, with no share but its own. -/
def started (addr : Str) (port : Int32) (payloadProcess : Option (Str → Str))
    (resultProcess : Option (List Str)) : DrccpServer (Option ℚ) :=
  start (setup addr port payloadProcess resultProcess)

theorem positive_start (addr : Str) (port : Int32) :
    Positive (addr, port) ((∅ : TreeMap DrccpEndpoint (Option ℚ)).insertIfNew (addr, port)
      FloatShare.one) := by
  refine ⟨fun endpoint share hshare => ?_, 1, ?_, one_pos⟩
  · rw [get_insertIfNew] at hshare
    split_ifs at hshare
    · simp only [TreeMap.getElem?_emptyc, Option.getD_none, Option.some_inj] at hshare
      exact ⟨1, hshare.symm, zero_le_one⟩
    · simp at hshare
  · rw [get_insertIfNew, if_pos rfl]
    simp only [TreeMap.getElem?_emptyc, Option.getD_none]
    rfl

/-- **The shares of a node are well defined** in every state of a run, if no forward to the node
itself fails. -/
theorem wellDefined_of_reached {addr : Str} {port : Int32} {payloadProcess : Option (Str → Str)}
    {resultProcess : Option (List Str)}
    (h : Reached (started addr port payloadProcess resultProcess) es node)
    (hnonneg : ∀ e ∈ es, e.Nonneg)
    (hforwarded : ∀ target, .forwarded target none ∈ es → target ≠ (addr, port)) :
    WellDefined node.server.serverCtx.shares := by
  have hrun : node.server.serverCtx.self = (addr, port) ∧ TellsOthers node ∧
      Positive node.server.serverCtx.self node.server.serverCtx.shares := by
    induction h with
    | start =>
      have hnone : TellsOthers ⟨started addr port payloadProcess resultProcess, []⟩ :=
        fun neigh m hmem => absurd hmem List.not_mem_nil
      exact ⟨rfl, hnone, positive_start addr port⟩
    | @step es node node' e _ hstarted hstep ih =>
      obtain ⟨hself, htells, hpositive⟩ := ih (fun e he => hnonneg e (List.mem_append_left _ he))
        fun target ht => hforwarded target (List.mem_append_left _ ht)
      have hmem : e ∈ es ++ [e] := List.mem_append_right _ (List.mem_singleton_self e)
      obtain ⟨hself', htells'⟩ := htells.busyStep hstep
      refine ⟨hself'.trans hself, htells', ?_⟩
      refine hpositive.busyStep htells hstarted (hnonneg e hmem) (fun target ht => ?_) hstep
      rw [hself]
      exact hforwarded target (ht ▸ hmem)
  exact hrun.2.2.wellDefined

/-! ## A forward to the node itself -/

/-- A request of a peer. -/
def peerRequest (type : MessageType) (src : DrccpEndpoint) (shares : List (DrccpEndpoint × Option ℚ)) :
    ServerEvent (Option ℚ) :=
  .request ⟨[], [], src, ([], 0), type, 3, [], shares⟩

/-- A submission is forwarded to the node itself in vain, a peer at `c:3` names one at `b:2` with the
share zero, and that one says hello. -/
def aloneEvents : List (ServerEvent (Option ℚ)) :=
  [peerRequest .LOCAL (lit "b", 2) [], .forwarded (lit "a", 1) none,
    peerRequest .HELLO (lit "c", 3) [((lit "b", 2), some 0)],
    peerRequest .HELLO (lit "b", 2) [((lit "a", 1), some 1)]]

theorem nonneg_aloneEvents : ∀ e ∈ aloneEvents, e.Nonneg := by
  have hone (type : MessageType) (src : DrccpEndpoint) (entry : DrccpEndpoint × Option ℚ) (q : ℚ)
      (hentry : entry.2 = some q) (hq : 0 ≤ q) : (peerRequest type src [entry]).Nonneg := by
    intro e he
    rw [List.mem_singleton.mp he]
    exact ⟨q, hentry, hq⟩
  simp only [aloneEvents, List.forall_mem_cons]
  exact ⟨fun entry hentry => absurd hentry List.not_mem_nil, trivial,
    hone _ _ _ 0 rfl le_rfl, hone _ _ _ 1 rfl zero_le_one, List.forall_mem_nil _⟩

theorem reached_aloneEvents : ∃ node, Reached (started (lit "a") 1 none none) aloneEvents node ∧
    node.server.serverCtx.shares[((lit "a", 1) : DrccpEndpoint)]? = some none := by
  have hlocal : Reached (started (lit "a") 1 none none) ([] ++ [peerRequest .LOCAL (lit "b", 2) []]) _ :=
    .step .start trivial rfl
  have hfailed : Reached (started (lit "a") 1 none none) (_ ++ [.forwarded (lit "a", 1) none]) _ :=
    .step hlocal (List.mem_cons_self ..) rfl
  have hnamed : Reached (started (lit "a") 1 none none)
      (_ ++ [peerRequest .HELLO (lit "c", 3) [((lit "b", 2), some 0)]]) _ := .step hfailed trivial rfl
  have hhello : Reached (started (lit "a") 1 none none)
      (_ ++ [peerRequest .HELLO (lit "b", 2) [((lit "a", 1), some 1)]]) _ := .step hnamed trivial rfl
  exact ⟨_, hhello, by decide +kernel⟩

-- the submission is forwarded to the node itself
example : selectBestTarget (started (lit "a") 1 none none).serverCtx (lit "b", 2) = (lit "a", 1) := by
  decide +kernel

/-- **A forward to the node itself that fails** lets a later update divide by zero. -/
theorem divides_by_zero : ¬ ∀ (addr : Str) (port : Int32) (payloadProcess : Option (Str → Str))
    (resultProcess : Option (List Str)) (es : List (ServerEvent (Option ℚ)))
    (node : Busy (Option ℚ)), Reached (started addr port payloadProcess resultProcess) es node →
      (∀ e ∈ es, e.Nonneg) → WellDefined node.server.serverCtx.shares := by
  intro h
  obtain ⟨node, hreached, hshare⟩ := reached_aloneEvents
  obtain ⟨q, hq, -⟩ := h _ _ _ _ _ _ hreached nonneg_aloneEvents _ _ hshare
  cases hq

/-- A peer that was met goes away, and a forward to it fails: the shares stay well defined. -/
theorem wellDefined_of_reached_alone : ∃ node,
    Reached (started (lit "a") 1 none none) [peerRequest .MEET (lit "b", 2) [],
      .updated (lit "b", 2) none true, peerRequest .LOCAL (lit "c", 3) [],
      .forwarded (lit "b", 2) none,
      peerRequest .HELLO (lit "b", 2) [((lit "a", 1), some 1)]] node ∧
      WellDefined node.server.serverCtx.shares := by
  have hmeet : Reached (started (lit "a") 1 none none) ([] ++ [peerRequest .MEET (lit "b", 2) []]) _ :=
    .step .start trivial rfl
  have hgone : Reached (started (lit "a") 1 none none) (_ ++ [.updated (lit "b", 2) none true]) _ :=
    .step hmeet ⟨_, List.mem_singleton_self _⟩ rfl
  have hlocal : Reached (started (lit "a") 1 none none) (_ ++ [peerRequest .LOCAL (lit "c", 3) []]) _ :=
    .step hgone trivial rfl
  have hfailed : Reached (started (lit "a") 1 none none) (_ ++ [.forwarded (lit "b", 2) none]) _ :=
    .step hlocal (List.mem_cons_of_mem _ (List.mem_cons_self ..)) rfl
  have hhello : Reached (started (lit "a") 1 none none)
      (_ ++ [peerRequest .HELLO (lit "b", 2) [((lit "a", 1), some 1)]]) _ := .step hfailed trivial rfl
  refine ⟨_, hhello, wellDefined_of_reached hhello ?_ ?_⟩
  · have hnone (type : MessageType) (src : DrccpEndpoint) : (peerRequest type src []).Nonneg :=
      fun entry hentry => absurd hentry List.not_mem_nil
    simp only [List.nil_append, List.cons_append, List.forall_mem_cons]
    refine ⟨hnone _ _, trivial, hnone _ _, trivial, fun entry hentry => ?_, List.forall_mem_nil _⟩
    rw [List.mem_singleton.mp hentry]
    exact ⟨1, rfl, zero_le_one⟩
  · rintro target ht rfl
    simp [peerRequest] at ht

end Jxtd.Computation.Drccp
