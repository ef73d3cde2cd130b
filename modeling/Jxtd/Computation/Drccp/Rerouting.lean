import Jxtd.Lib.Choice
import Jxtd.Computation.Drccp.Failover
import Jxtd.Computation.Drccp.Ring

/-!
# Which submissions are rerouted

The node that a submission is forwarded to depends on the whole table of shares. When the table
changes, few sources get another target.

* `Agree`: two tables that differ at most at some endpoints; `select_stable`: what that leaves.
* `ServerEvent.touched`: the endpoints whose share an event may change; `agree_serverStep`.
* **`rerouted_by_touched`**: in every run, a source moves only away from or onto such an endpoint.
* `Failed`: what a failover has left of the table.
* **`failover_moves`**: a failover moves no source but those of the nodes it has tried.
-/

namespace Jxtd.Computation.Drccp

open Lib Std

variable {φ : Type}

/-! ## Tables that agree -/

/-- The same node, with the same shares of all other endpoints. -/
structure Agree (E : Set DrccpEndpoint) (ctx ctx' : DrccpServerContext φ) : Prop where
  self_eq : ctx'.self = ctx.self
  get : ∀ e ∉ E, ctx'.shares[e]? = ctx.shares[e]?

theorem Agree.refl (E : Set DrccpEndpoint) (ctx : DrccpServerContext φ) : Agree E ctx ctx :=
  ⟨rfl, fun _ _ => rfl⟩

theorem Agree.mono {E E' : Set DrccpEndpoint} {ctx ctx' : DrccpServerContext φ}
    (h : Agree E ctx ctx') (hE : E ⊆ E') : Agree E' ctx ctx' :=
  ⟨h.self_eq, fun e he => h.get e fun hmem => he (hE hmem)⟩

theorem Agree.trans {E : Set DrccpEndpoint} {ctx ctx' ctx'' : DrccpServerContext φ}
    (h : Agree E ctx ctx') (h' : Agree E ctx' ctx'') : Agree E ctx ctx'' :=
  ⟨h'.self_eq.trans h.self_eq, fun e he => (h'.get e he).trans (h.get e he)⟩

variable [FloatShare φ] {E : Set DrccpEndpoint} {ctx ctx' : DrccpServerContext φ}
  {server server' : DrccpServer φ}

theorem owner_eq_first (shares : TreeMap DrccpEndpoint φ) (place : UInt32) :
    owner shares place = first (fun e => place ∈ places e.1 e.2) shares :=
  rfl

/-- **A source keeps its target** when neither the old nor the new one has another share. -/
theorem select_stable (h : Agree E ctx ctx') {source : DrccpEndpoint}
    (hbefore : selectBestTarget ctx source ∉ E) (hafter : selectBestTarget ctx' source ∉ E) :
    selectBestTarget ctx' source = selectBestTarget ctx source := by
  rw [selectBestTarget_eq, owner_eq_first] at hbefore hafter ⊢
  rw [selectBestTarget_eq, owner_eq_first]
  have hback : ∀ e ∉ E, ctx.shares[e]? = ctx'.shares[e]? := fun e he => (h.get e he).symm
  cases hfirst : first (fun e => hashcode source ∈ places e.1 e.2) ctx.shares with
  | some target =>
    rw [hfirst] at hbefore
    rw [first_stable h.get hfirst hbefore fun target' htarget' => by rwa [htarget'] at hafter]
    rfl
  | none =>
    cases hfirst' : first (fun e => hashcode source ∈ places e.1 e.2) ctx'.shares with
    | none => exact h.self_eq
    | some target' =>
      rw [hfirst'] at hafter
      have hsome := first_stable hback hfirst' hafter fun k hk => by rw [hfirst] at hk; cases hk
      rw [hfirst] at hsome
      cases hsome

/-! ## Events -/

/-- The endpoints whose share an event may change. -/
def ServerEvent.touched (self : DrccpEndpoint) : ServerEvent φ → List DrccpEndpoint
  | .request req =>
    match req.type with
    | .MEET => req.src :: req.shares.map Prod.fst
    | .HELLO => req.shares.map Prod.fst
    | .FORWARD => [self]
    | _ => []
  | .updated neigh none _ => [neigh]
  | .updated _ (some resp) _ => resp.shares.map Prod.fst
  | .forwarded target _ => [target]
  | .signin _ _ none => []
  | .signin _ _ (some resp) => resp.shares.map Prod.fst
  | .logout => []

theorem agree_updateShares {peer : DrccpEndpoint} {entries : List (DrccpEndpoint × φ)}
    (h : updateShares ctx peer entries = .ok ctx') :
    Agree {e | e ∈ entries.map Prod.fst} ctx ctx' := by
  rw [updateShares] at h
  split at h
  · cases h
  · cases h
    refine ⟨rfl, fun e he => ?_⟩
    change (entries.foldl (updateShare _ _) ctx.shares)[e]? = _
    rename_i selfShare hself
    generalize ctx.shares[peer]?.getD FloatShare.one = peerShare
    generalize ctx.shares = shares
    induction entries generalizing shares with
    | nil => rfl
    | cons entry entries ih =>
      obtain ⟨hne, hrest⟩ := not_or.mp fun hmem => he (List.mem_cons.mpr hmem)
      rw [List.foldl_cons, ih hrest, updateShare]
      split
      · exact get_store_ne _ _ fun heq => hne heq.symm
      · rw [get_insertIfNew, if_neg fun heq => hne heq.symm]

omit [FloatShare φ] in
theorem agree_store (ctx : DrccpServerContext φ) (endpoint : DrccpEndpoint) (share : φ) :
    Agree {e | e ∈ [endpoint]} ctx { ctx with shares := ctx.shares.insert endpoint share } :=
  ⟨rfl, fun _ he => get_store_ne _ _ fun heq => he (List.mem_singleton.mpr heq.symm)⟩

omit [FloatShare φ] in
theorem agree_insertIfNew (ctx : DrccpServerContext φ) (endpoint : DrccpEndpoint) (share : φ) :
    Agree {e | e ∈ [endpoint]} ctx { ctx with shares := ctx.shares.insertIfNew endpoint share } := by
  refine ⟨rfl, fun e he => ?_⟩
  rw [get_insertIfNew, if_neg fun heq => he (List.mem_singleton.mpr heq.symm)]

theorem agree_forwarded (ctx : DrccpServerContext φ) (target : DrccpEndpoint)
    (resp : Option (Message φ)) : Agree {e | e ∈ [target]} ctx (forwarded ctx target resp) := by
  cases resp with
  | none => exact agree_store ..
  | some resp =>
    exact ⟨rfl, fun e he => get_store_ne _ _ fun heq => he (List.mem_singleton.mpr heq.symm)⟩

theorem agree_process {req : Message φ} {out : Processed φ} (h : process server req = .ok out) :
    Agree {e | e ∈ (ServerEvent.request req).touched server.serverCtx.self} server.serverCtx
      out.server.serverCtx := by
  rw [process] at h
  split_ifs at h
  · cases h
    exact .refl ..
  · cases h
    exact .refl ..
  · cases h
    exact .refl ..
  · split at h
    · rename_i htype
      obtain ⟨ctx, hctx, h⟩ := bind_eq_ok.mp h
      cases h
      refine .trans ((agree_insertIfNew _ _ _).mono ?_) ((agree_updateShares hctx).mono ?_)
      · intro e he
        simp [ServerEvent.touched, htype, List.mem_singleton.mp he]
      · intro e he
        rw [Set.mem_ofPred_eq, ServerEvent.touched, htype]
        exact List.mem_cons_of_mem _ he
    · rename_i htype
      obtain ⟨ctx, hctx, h⟩ := bind_eq_ok.mp h
      cases h
      simpa [ServerEvent.touched, htype] using agree_updateShares hctx
    · cases h
      exact .refl ..
    · rename_i htype
      split at h
      · cases h
      · cases h
        rw [ServerEvent.touched, htype]
        exact agree_store ..
    · cases h
      exact .refl ..

omit [FloatShare φ] in
theorem agree_signinDone (server : DrccpServer φ) (clusterTag : Str) (boot : DrccpEndpoint)
    (resp : Option (Message φ)) :
    Agree {e | e ∈ (ServerEvent.signin clusterTag boot resp).touched server.serverCtx.self}
      server.serverCtx (signinDone (signinRequest server clusterTag boot).1 resp).2.serverCtx := by
  cases resp with
  | none => exact ⟨rfl, fun _ _ => rfl⟩
  | some resp =>
    rw [signinDone]
    dsimp only
    split_ifs
    · exact ⟨rfl, fun _ _ => rfl⟩
    · refine ⟨rfl, fun e he => ?_⟩
      change (resp.shares.foldl _ _)[e]? = _
      rw [get_foldl_insertIfNew]
      have hfind : resp.shares.find? (fun x => x.1 = e) = none := by
        rw [List.find?_eq_none]
        intro x hx heq
        exact he (List.mem_map.mpr ⟨x, hx, by simpa using heq⟩)
      rw [hfind, Option.map_none, Option.or_none]
      rfl

/-- **An event changes the shares that it names**, and no others. -/
theorem agree_serverStep {event : ServerEvent φ} (h : serverStep server event = .ok server') :
    Agree {e | e ∈ event.touched server.serverCtx.self} server.serverCtx server'.serverCtx := by
  cases event with
  | request req =>
    obtain ⟨out, hout, rfl⟩ := map_eq_ok.mp h
    exact agree_process hout
  | updated neigh resp found =>
    obtain ⟨ctx, hctx, rfl⟩ := map_eq_ok.mp h
    obtain rfl := found_of_updated hctx
    cases resp with
    | none =>
      cases hctx
      exact agree_store ..
    | some resp => exact agree_updateShares hctx
  | forwarded target resp =>
    cases h
    exact agree_forwarded ..
  | signin clusterTag boot resp =>
    cases h
    exact agree_signinDone ..
  | logout =>
    cases h
    exact ⟨rfl, fun _ _ => rfl⟩

/-- **Only touched endpoints lose or gain submissions.** Over any run of a node, a source gets another
target only if an event of the run has touched the share of the old target or of the new one. -/
theorem rerouted_by_touched {es : List (ServerEvent φ)} (h : run serverStep server es = .ok server')
    (source : DrccpEndpoint)
    (hmoved : selectBestTarget server'.serverCtx source ≠ selectBestTarget server.serverCtx source) :
    ∃ event ∈ es,
      selectBestTarget server.serverCtx source ∈ event.touched server.serverCtx.self ∨
      selectBestTarget server'.serverCtx source ∈ event.touched server.serverCtx.self := by
  have hagree : Agree {e | ∃ event ∈ [] ++ es, e ∈ event.touched server.serverCtx.self}
      server.serverCtx server'.serverCtx := by
    refine run_history (R := fun s before => Agree {e | ∃ event ∈ before,
      e ∈ event.touched server.serverCtx.self} server.serverCtx s.serverCtx)
      (fun s s' before event hs hstep => ?_) (.refl ..) h
    have hself := hs.self_eq
    refine (hs.mono ?_).trans ((agree_serverStep hstep).mono ?_)
    · rintro e ⟨event', hevent', he⟩
      exact ⟨event', List.mem_append_left _ hevent', he⟩
    · intro e he
      rw [hself] at he
      exact ⟨event, List.mem_append_right _ (List.mem_singleton_self _), he⟩
  by_contra hnot
  push Not at hnot
  refine hmoved (select_stable hagree ?_ ?_)
  · rintro ⟨event, hevent, hmem⟩
    exact (hnot event hevent).1 hmem
  · rintro ⟨event, hevent, hmem⟩
    exact (hnot event hevent).2 hmem

theorem select_peerContext : selectBestTarget peerContext (lit "b", 2) = (lit "b", 2) := by
  rw [selectBestTarget_eq, owner_peerContext, places_peer]
  decide

theorem select_peerContext_failed :
    selectBestTarget (forwarded peerContext (lit "b", 2) none) (lit "b", 2) ≠ (lit "b", 2) := by
  intro heq
  rcases selectBestTarget_cases (forwarded peerContext (lit "b", 2) none) (lit "b", 2) with
    hcandidate | ⟨-, hself⟩
  · rw [heq] at hcandidate
    exact (candidate_forwarded_none.mp hcandidate).1 rfl
  · rw [heq] at hself
    exact absurd hself (by decide)

/-- **A failed forward** moves the source at `b:2`. -/
theorem rerouted_by_touched_peer :
    ∃ event ∈ [ServerEvent.forwarded (φ := ℚ) (lit "b", 2) none],
      selectBestTarget peerContext (lit "b", 2) ∈ event.touched (lit "a", 1) ∨
      selectBestTarget (forwarded peerContext (lit "b", 2) none) (lit "b", 2) ∈
        event.touched (lit "a", 1) := by
  have hrun : run serverStep ⟨peerContext, ⟨[], 0⟩⟩ [.forwarded (lit "b", 2) none] =
    .ok ⟨forwarded peerContext (lit "b", 2) none, ⟨[], 0⟩⟩ := rfl
  refine rerouted_by_touched hrun (lit "b", 2) fun heq => select_peerContext_failed ?_
  exact heq.trans select_peerContext

/-! ## Failover -/

/-- A failover has changed the shares of the nodes it has tried, and those that failed count for
nothing. -/
structure Failed (network : Network φ) (ctx : DrccpServerContext φ) (f : Forwarding φ) : Prop where
  agree : Agree {e | e ∈ f.tried} ctx f.ctx
  zero : ∀ e ∈ f.tried, network e = none → f.ctx.shares[e]? = some FloatShare.zero

theorem Failed.attempt {network : Network φ} {f f' : Forwarding φ} (h : Failed network ctx f)
    (hattempt : attempt network f = some f') : Failed network ctx f' := by
  obtain ⟨⟨target, req⟩, -, rfl⟩ := Option.map_eq_some_iff.mp hattempt
  dsimp only
  refine ⟨(h.agree.mono fun e he => List.mem_append_left _ he).trans
    ((agree_forwarded ..).mono fun e he => List.mem_append_right _ he), fun e he hnone => ?_⟩
  by_cases heq : e = target
  · subst heq
    rw [hnone]
    exact get_store_self ..
  · rw [(agree_forwarded f.ctx target _).get e fun hmem => heq (List.mem_singleton.mp hmem)]
    refine h.zero e ((List.mem_append.mp he).resolve_right fun hmem => heq ?_) hnone
    exact List.mem_singleton.mp hmem

/-- **A failover reroutes no more than it must.** After any number of attempts, a source has another
target only if its target was tried or is the node that answered; and none of the nodes that failed is
the target of any source, the node itself apart. -/
theorem failover_moves {network : Network φ} {req resp : Message φ} {n : ℕ} {f : Forwarding φ}
    (h : iterate (attempt network) n (.start ctx req resp) = some f) (source : DrccpEndpoint) :
    (selectBestTarget f.ctx source = selectBestTarget ctx source ∨
      selectBestTarget ctx source ∈ f.tried ∨
      selectBestTarget f.ctx source ∈ f.tried ∧
        network (selectBestTarget f.ctx source) ≠ none) ∧
    ∀ e ∈ f.tried, network e = none → selectBestTarget f.ctx source = e → e = ctx.self := by
  have hfailed : Failed network ctx f :=
    iterate_invariant (fun _ _ hs hnext => hs.attempt hnext)
      ⟨.refl .., fun _ he => absurd he List.not_mem_nil⟩ h
  have hself : ∀ e ∈ f.tried, network e = none → selectBestTarget f.ctx source = e →
      (∀ e', ¬ Candidate f.ctx source e') ∧ e = ctx.self := by
    rintro e he hnone rfl
    rcases selectBestTarget_cases f.ctx source with hcandidate | ⟨hno, hself⟩
    · exact absurd hcandidate (not_candidate_of_zero (hfailed.zero _ he hnone) source)
    · exact ⟨hno, hself.trans hfailed.agree.self_eq⟩
  refine ⟨?_, fun e he hnone heq => (hself e he hnone heq).2⟩
  by_cases hbefore : selectBestTarget ctx source ∈ f.tried
  · exact .inr (.inl hbefore)
  by_cases hafter : selectBestTarget f.ctx source ∈ f.tried
  · by_cases hnone : network (selectBestTarget f.ctx source) = none
    · obtain ⟨hno, heq⟩ := hself _ hafter hnone rfl
      rcases selectBestTarget_cases ctx source with ⟨share, hshare, hplace⟩ | ⟨-, hown⟩
      · -- the old target has kept its share, and would be a candidate still
        rw [← hfailed.agree.get _ hbefore] at hshare
        exact absurd ⟨share, hshare, hplace⟩ (hno _)
      · exact .inl (heq.trans hown.symm)
    · exact .inr (.inr ⟨hafter, hnone⟩)
  · exact .inl (select_stable hfailed.agree hbefore hafter)

/-- The peer at `b:2` is tried and does not answer. -/
theorem failover_moves_peer : ∃ f : Forwarding ℚ,
    iterate (attempt fun _ => none) 1
      (.start peerContext (Message.new.setsrc (lit "b", 2)) .new) = some f ∧
    f.tried = [(lit "b", 2)] ∧ ∀ source,
      (selectBestTarget f.ctx source = selectBestTarget peerContext source ∨
        selectBestTarget peerContext source = (lit "b", 2)) ∧
      selectBestTarget f.ctx source ≠ (lit "b", 2) := by
  obtain ⟨f, hf, htried⟩ : ∃ f : Forwarding ℚ, iterate (attempt fun _ => none) 1
      (.start peerContext (Message.new.setsrc (lit "b", 2)) .new) = some f ∧
      f.tried = [selectBestTarget peerContext (lit "b", 2)] := ⟨_, rfl, rfl⟩
  rw [select_peerContext] at htried
  refine ⟨f, hf, htried, fun source => ?_⟩
  obtain ⟨hmoved, hfailed⟩ := failover_moves hf source
  rw [htried, List.mem_singleton, List.mem_singleton] at hmoved
  refine ⟨?_, fun heq => ?_⟩
  · rcases hmoved with hkept | htarget | ⟨-, hreached⟩
    · exact .inl hkept
    · exact .inr htarget
    · exact absurd rfl hreached
  · have hself := hfailed _ (htried ▸ List.mem_singleton_self _) rfl heq
    exact absurd hself (by decide)

end Jxtd.Computation.Drccp
