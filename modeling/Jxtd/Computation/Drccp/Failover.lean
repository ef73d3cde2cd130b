import Jxtd.Lib.Iterate
import Jxtd.Computation.Drccp.Server

/-!
# Forwarding a submission

A `LOCAL` request is forwarded to one node after the other until one of them answers
(`forward_task_repeater`, `computation/drccp/server.cc`). The share of a node that does not answer
becomes zero.

* `forwardTaskRepeater`, `forwardDone`, `attempt`: the repetition.
* `Candidate`: the nodes that the hash ring may yield for a source.
* `selectBestTarget_cases`: a candidate while there is one, and then the node itself.
* **`failover_bounded_iff`**: the repetition is bounded exactly when a candidate or the node itself
  can be reached.
-/

namespace Jxtd.Computation.Drccp

open Lib Std

variable {φ : Type}

/-- `DrccpTaskContext`: the request, the response, `forward_success`. -/
structure DrccpTaskContext (φ : Type) where
  req : Message φ
  resp : Message φ
  forwardSuccess : Bool

/-- The repetition, with the targets of the attempts so far. -/
structure Forwarding (φ : Type) where
  ctx : DrccpServerContext φ
  taskCtx : DrccpTaskContext φ
  tried : List DrccpEndpoint

/-- What an endpoint does with a request; `none` for an endpoint that cannot be reached. -/
abbrev Network (φ : Type) := DrccpEndpoint → Option (Message φ → Message φ)

/-- What is sent to a target. -/
def forwardRequest (ctx : DrccpServerContext φ) (target : DrccpEndpoint) (raw : Str) : Message φ :=
  (((((Message.new.setversion 3).settag ctx.clusterTag (lit "unused")).setsrc ctx.self).setdest
    target).setraw raw).settype .FORWARD

variable [FloatShare φ]

/-- `forward_task_repeater`: the next target and its request, or the end of the repetition. -/
def forwardTaskRepeater (ctx : DrccpServerContext φ) (taskCtx : DrccpTaskContext φ) :
    Option (DrccpEndpoint × Message φ) :=
  if taskCtx.forwardSuccess then none
  else
    let target := selectBestTarget ctx taskCtx.req.src
    some (target, forwardRequest ctx target taskCtx.req.raw)

omit [FloatShare φ] in
/-- The callback of a forward task, as far as the request is concerned. -/
def forwardDone (taskCtx : DrccpTaskContext φ) (resp : Option (Message φ)) : DrccpTaskContext φ :=
  match resp with
  | none => { taskCtx with forwardSuccess := false }
  | some resp =>
    { taskCtx with
      resp := (taskCtx.resp.settype .RESULT).setraw resp.raw
      forwardSuccess := true }

/-- One attempt. -/
def attempt (network : Network φ) (f : Forwarding φ) : Option (Forwarding φ) :=
  (forwardTaskRepeater f.ctx f.taskCtx).map fun (target, req) =>
    let resp := (network target).map fun answer => answer req
    { ctx := forwarded f.ctx target resp
      taskCtx := forwardDone f.taskCtx resp
      tried := f.tried ++ [target] }

omit [FloatShare φ] in
/-- The repetition begins. -/
def Forwarding.start (ctx : DrccpServerContext φ) (req resp : Message φ) : Forwarding φ :=
  ⟨ctx, ⟨req, resp, false⟩, []⟩

/-! ## The selected node -/

/-- A node that the ring holds at the place of the source, possibly among others. -/
def Candidate (ctx : DrccpServerContext φ) (source endpoint : DrccpEndpoint) : Prop :=
  ∃ share, ctx.shares[endpoint]? = some share ∧ hashcode source ∈ places endpoint share

instance (ctx : DrccpServerContext φ) (source : DrccpEndpoint) :
    DecidablePred (Candidate ctx source) := fun e =>
  decidable_of_iff ((ctx.shares[e]?.any fun share => hashcode source ∈ places e share) = true) <| by
    rw [Option.any_eq_true]
    exact exists_congr fun share => and_congr_right fun _ => decide_eq_true_iff

theorem not_candidate_of_zero {ctx : DrccpServerContext φ} {endpoint : DrccpEndpoint}
    (h : ctx.shares[endpoint]? = some FloatShare.zero) (source : DrccpEndpoint) :
    ¬ Candidate ctx source endpoint := by
  rintro ⟨share, hshare, hplace⟩
  rw [h] at hshare
  cases hshare
  exact nodeLimit_ne_zero hplace FloatShare.nodeLimit_zero

/-- **The selected node**: a candidate while there is one, and then the node itself. -/
theorem selectBestTarget_cases (ctx : DrccpServerContext φ) (source : DrccpEndpoint) :
    Candidate ctx source (selectBestTarget ctx source) ∨
      (∀ e, ¬ Candidate ctx source e) ∧ selectBestTarget ctx source = ctx.self := by
  cases hfind : (hashCycle ctx.shares)[hashcode source]? with
  | some endpoint =>
    left
    have hselect : selectBestTarget ctx source = endpoint := by
      rw [selectBestTarget, hfind]
    rw [hselect]
    rw [hashCycle, get_ofInserts] at hfind
    obtain ⟨⟨place, e⟩, he, rfl⟩ := Option.map_eq_some_iff.mp hfind
    have hplace : place = hashcode source := by simpa using List.find?_some he
    obtain ⟨⟨key, share⟩, hentry, hmem⟩ := List.mem_flatMap.mp (List.mem_of_find?_eq_some he)
    obtain ⟨p, hp, heq⟩ := List.mem_map.mp hmem
    cases heq
    exact ⟨share, TreeMap.mem_toList_iff_getElem?_eq_some.mp hentry, hplace ▸ hp⟩
  | none =>
    right
    have hselect : selectBestTarget ctx source = ctx.self := by
      rw [selectBestTarget, hfind]
      simp [walk]
    refine ⟨fun e he => ?_, hselect⟩
    obtain ⟨share, hshare, hplace⟩ := he
    rw [hashCycle, get_ofInserts, Option.map_eq_none_iff, List.find?_eq_none] at hfind
    refine hfind (hashcode source, e) (List.mem_flatMap.mpr ⟨(e, share), ?_, ?_⟩) (by simp)
    · exact TreeMap.mem_toList_iff_getElem?_eq_some.mpr hshare
    · exact List.mem_map.mpr ⟨_, hplace, rfl⟩

/-- The candidates as a finite set. -/
def candidates (ctx : DrccpServerContext φ) (source : DrccpEndpoint) : Finset DrccpEndpoint :=
  (keySet ctx.shares).filter (Candidate ctx source)

theorem mem_candidates {ctx : DrccpServerContext φ} {source endpoint : DrccpEndpoint} :
    endpoint ∈ candidates ctx source ↔ Candidate ctx source endpoint := by
  rw [candidates, Finset.mem_filter, and_iff_right_iff_imp]
  rintro ⟨share, hshare, -⟩
  exact mem_keySet_iff_get.mpr ⟨share, hshare⟩

theorem card_candidates_le (ctx : DrccpServerContext φ) (source : DrccpEndpoint) :
    (candidates ctx source).card ≤ ctx.shares.size := by
  rw [← card_keySet]
  exact Finset.card_filter_le ..

/-- **A failed attempt** takes its target from the candidates and leaves the others. -/
theorem candidate_forwarded_none {ctx : DrccpServerContext φ} {source target e : DrccpEndpoint} :
    Candidate (forwarded ctx target none) source e ↔ e ≠ target ∧ Candidate ctx source e := by
  by_cases he : e = target
  · subst he
    refine iff_of_false (not_candidate_of_zero ?_ source) fun h => h.1 rfl
    exact get_store_self ..
  · have hget : (forwarded ctx target none).shares[e]? = ctx.shares[e]? :=
      get_store_ne _ _ (Ne.symm he)
    rw [Candidate, hget]
    exact (and_iff_right he).symm

theorem card_candidates_lt {ctx : DrccpServerContext φ} {source target : DrccpEndpoint}
    (h : Candidate ctx source target) :
    (candidates (forwarded ctx target none) source).card < (candidates ctx source).card := by
  refine Finset.card_lt_card (Finset.ssubset_iff_of_subset ?_ |>.mpr ⟨target, ?_, ?_⟩)
  · intro e he
    exact mem_candidates.mpr (candidate_forwarded_none.mp (mem_candidates.mp he)).2
  · exact mem_candidates.mpr h
  · exact fun hm => (candidate_forwarded_none.mp (mem_candidates.mp hm)).1 rfl

/-! ## The attempts -/

/-- The repetition has not ended and has attempted nothing but unreachable nodes. -/
structure Trying (network : Network φ) (ctx₀ : DrccpServerContext φ) (req : Message φ)
    (f : Forwarding φ) : Prop where
  running : f.taskCtx.forwardSuccess = false
  req_eq : f.taskCtx.req = req
  self_eq : f.ctx.self = ctx₀.self
  tried : ∀ e ∈ f.tried, network e = none ∧ ¬ Candidate f.ctx req.src e
  candidate : ∀ e, network e ≠ none → (Candidate f.ctx req.src e ↔ Candidate ctx₀ req.src e)
  fewer : ∀ e, Candidate f.ctx req.src e → Candidate ctx₀ req.src e

variable {network : Network φ} {ctx₀ : DrccpServerContext φ} {req : Message φ} {f f' : Forwarding φ}

theorem Trying.start (network : Network φ) (ctx : DrccpServerContext φ) (req resp : Message φ) :
    Trying network ctx req (.start ctx req resp) where
  running := rfl
  req_eq := rfl
  self_eq := rfl
  tried := fun _ he => absurd he List.not_mem_nil
  candidate := fun _ _ => Iff.rfl
  fewer := fun _ => id

theorem Trying.repeater (h : Trying network ctx₀ req f) :
    forwardTaskRepeater f.ctx f.taskCtx = some (selectBestTarget f.ctx req.src,
      forwardRequest f.ctx (selectBestTarget f.ctx req.src) req.raw) := by
  rw [forwardTaskRepeater, h.running, h.req_eq]
  rfl

/-- **A failed attempt** goes on. -/
theorem Trying.attempt_none (h : Trying network ctx₀ req f)
    (hnone : network (selectBestTarget f.ctx req.src) = none) :
    ∃ f', attempt network f = some f' ∧ Trying network ctx₀ req f' ∧
      f'.ctx = forwarded f.ctx (selectBestTarget f.ctx req.src) none := by
  refine ⟨_, by rw [attempt, h.repeater, Option.map_some], ?_, ?_⟩
  · simp only [hnone, Option.map_none]
    refine ⟨rfl, h.req_eq, h.self_eq, fun e he => ?_, fun e he => ?_, fun e he => ?_⟩
    · rcases List.mem_append.mp he with he | he
      · exact ⟨(h.tried e he).1, fun hc =>
          (h.tried e he).2 (candidate_forwarded_none.mp hc).2⟩
      · obtain rfl := List.mem_singleton.mp he
        exact ⟨hnone, fun hc => (candidate_forwarded_none.mp hc).1 rfl⟩
    · rw [candidate_forwarded_none, ← h.candidate e he]
      refine and_iff_right ?_
      rintro rfl
      exact he hnone
    · exact h.fewer e (candidate_forwarded_none.mp he).2
  · simp only [hnone, Option.map_none]

/-- **A successful attempt** ends the repetition. -/
theorem Trying.attempt_some (h : Trying network ctx₀ req f)
    (hsome : network (selectBestTarget f.ctx req.src) ≠ none) :
    ∃ f', attempt network f = some f' ∧ f'.taskCtx.forwardSuccess = true := by
  obtain ⟨answer, hanswer⟩ := Option.ne_none_iff_exists'.mp hsome
  refine ⟨_, by rw [attempt, h.repeater, Option.map_some], ?_⟩
  simp only [hanswer, Option.map_some]
  rfl

theorem attempt_of_success (network : Network φ) (h : f.taskCtx.forwardSuccess = true) :
    attempt network f = none := by
  rw [attempt, forwardTaskRepeater, if_pos h, Option.map_none]

/-! ## When it ends -/

/-- **The bounded failover**: at most one attempt for each endpoint of the table and one more, and
each failed attempt takes a share that counts from a node not attempted before. -/
def FailoverBounded (network : Network φ) (ctx : DrccpServerContext φ) (req resp : Message φ) :
    Prop :=
  ∃ n f, n ≤ ctx.shares.size + 1 ∧ iterate (attempt network) n (.start ctx req resp) = some f ∧
    attempt network f = none ∧
    ∀ i g target sent, i < n → iterate (attempt network) i (.start ctx req resp) = some g →
      forwardTaskRepeater g.ctx g.taskCtx = some (target, sent) → network target = none →
        target ∉ g.tried ∧
        (∃ share, g.ctx.shares[target]? = some share ∧ FloatShare.nodeLimit share ≠ 0) ∧
        ∀ g', attempt network g = some g' → g'.ctx.shares[target]? = some FloatShare.zero

/-- Some node that the repetition may come to can be reached. -/
def Reaches (network : Network φ) (ctx : DrccpServerContext φ) (source : DrccpEndpoint) : Prop :=
  ∃ e, (e = ctx.self ∨ Candidate ctx source e) ∧ network e ≠ none

/-- An attempt that fails has a candidate for its target, if the repetition reaches some node. -/
theorem Trying.target_candidate (h : Trying network ctx₀ req f)
    (hreaches : Reaches network ctx₀ req.src)
    (hnone : network (selectBestTarget f.ctx req.src) = none) :
    Candidate f.ctx req.src (selectBestTarget f.ctx req.src) := by
  rcases selectBestTarget_cases f.ctx req.src with hc | ⟨hno, hself⟩
  · exact hc
  · obtain ⟨e, rfl | he, hreach⟩ := hreaches
    · rw [hself, h.self_eq] at hnone
      exact absurd hnone hreach
    · exact absurd ((h.candidate e hreach).mpr he) (hno e)

/-- What holds of the repetition after every attempt, if it reaches some node. -/
def Progress (network : Network φ) (ctx₀ : DrccpServerContext φ) (req : Message φ)
    (f : Forwarding φ) : Prop :=
  f.taskCtx.forwardSuccess = true ∨ Trying network ctx₀ req f

/-- What is left: the candidates and one more attempt. -/
def remaining (source : DrccpEndpoint) (f : Forwarding φ) : ℕ :=
  if f.taskCtx.forwardSuccess then 0 else (candidates f.ctx source).card + 1

theorem Progress.attempt (hreaches : Reaches network ctx₀ req.src)
    (h : Progress network ctx₀ req f) (hattempt : attempt network f = some f') :
    Progress network ctx₀ req f' ∧ remaining req.src f' < remaining req.src f := by
  rcases h with hdone | h
  · rw [attempt_of_success network hdone] at hattempt
    cases hattempt
  · have hremaining : remaining req.src f = (candidates f.ctx req.src).card + 1 := by
      rw [remaining, h.running, if_neg Bool.false_ne_true]
    by_cases hnone : network (selectBestTarget f.ctx req.src) = none
    · obtain ⟨f₁, hf₁, htrying, hctx⟩ := h.attempt_none hnone
      obtain rfl := Option.some.inj (hf₁.symm.trans hattempt)
      refine ⟨.inr htrying, ?_⟩
      have hlt := card_candidates_lt (h.target_candidate hreaches hnone)
      rw [hremaining, remaining, htrying.running, if_neg Bool.false_ne_true, hctx]
      omega
    · obtain ⟨f₁, hf₁, hsuccess⟩ := h.attempt_some hnone
      obtain rfl := Option.some.inj (hf₁.symm.trans hattempt)
      refine ⟨.inl hsuccess, ?_⟩
      rw [hremaining, remaining, if_pos hsuccess]
      omega

theorem failoverBounded_of_reaches (resp : Message φ) (hreaches : Reaches network ctx₀ req.src) :
    FailoverBounded network ctx₀ req resp := by
  have hstart : Progress network ctx₀ req (.start ctx₀ req resp) := .inr (.start ..)
  obtain ⟨n, f, hn, hf, hstop⟩ := iterate_stops (remaining req.src)
    (fun g g' hg => hg.attempt hreaches) hstart
  refine ⟨n, f, ?_, hf, hstop, fun i g target sent _ hg hrepeater hnone => ?_⟩
  · have hcard := card_candidates_le ctx₀ req.src
    have hremaining : remaining req.src (.start ctx₀ req resp) =
        (candidates ctx₀ req.src).card + 1 := rfl
    omega
  · have hprogress : Progress network ctx₀ req g :=
      iterate_invariant (fun _ _ hs hnext => (hs.attempt hreaches hnext).1) hstart hg
    rcases hprogress with hdone | htrying
    · rw [forwardTaskRepeater, if_pos hdone] at hrepeater
      cases hrepeater
    · rw [htrying.repeater] at hrepeater
      cases hrepeater
      have hcandidate := htrying.target_candidate hreaches hnone
      refine ⟨fun hmem => (htrying.tried _ hmem).2 hcandidate, ?_, fun g' hg' => ?_⟩
      · obtain ⟨share, hshare, hplace⟩ := hcandidate
        exact ⟨share, hshare, nodeLimit_ne_zero hplace⟩
      · obtain ⟨g₁, hg₁, -, hctx⟩ := htrying.attempt_none hnone
        obtain rfl := Option.some.inj (hg₁.symm.trans hg')
        rw [hctx]
        exact get_store_self ..

/-- Without a node to reach, every attempt fails, also that at the node itself. -/
theorem Trying.goes_on (hreaches : ¬ Reaches network ctx₀ req.src) (h : Trying network ctx₀ req f) :
    ∃ f', attempt network f = some f' ∧ Trying network ctx₀ req f' := by
  have hnone : network (selectBestTarget f.ctx req.src) = none := by
    by_contra hreach
    rcases selectBestTarget_cases f.ctx req.src with hc | ⟨-, hself⟩
    · exact hreaches ⟨_, .inr (h.fewer _ hc), hreach⟩
    · exact hreaches ⟨_, .inl (hself.trans h.self_eq), hreach⟩
  obtain ⟨f', hf', htrying, -⟩ := h.attempt_none hnone
  exact ⟨f', hf', htrying⟩

theorem attempts_go_on (resp : Message φ) (hreaches : ¬ Reaches network ctx₀ req.src) (n : ℕ) :
    ∃ f, iterate (attempt network) n (.start ctx₀ req resp) = some f ∧
      Trying network ctx₀ req f :=
  iterate_total (fun _ h => h.goes_on hreaches) (.start network ctx₀ req resp) n

theorem not_failoverBounded (resp : Message φ) (hreaches : ¬ Reaches network ctx₀ req.src) :
    ¬ FailoverBounded network ctx₀ req resp := by
  rintro ⟨n, f, -, hf, hstop, -⟩
  obtain ⟨f₁, hf₁, htrying⟩ := attempts_go_on resp hreaches n
  obtain rfl := Option.some.inj (hf₁.symm.trans hf)
  obtain ⟨f₂, hf₂, -⟩ := htrying.goes_on hreaches
  rw [hstop] at hf₂
  cases hf₂

/-- **Exactly when the failover is bounded**: the node itself, or a node at the place of the source
on the ring, can be reached. -/
theorem failover_bounded_iff (network : Network φ) (ctx : DrccpServerContext φ)
    (req resp : Message φ) :
    FailoverBounded network ctx req resp ↔
      ∃ e, (e = ctx.self ∨ Candidate ctx req.src e) ∧ network e ≠ none :=
  ⟨fun h => by_contra fun hreaches => not_failoverBounded resp hreaches h,
    failoverBounded_of_reaches resp⟩

/-- A node that was started alone, at `a:1`. -/
def aloneNode : DrccpServer ℚ := start (setup (lit "a") 1 none none)

/-- **Nothing reachable: the node forwards to itself for ever.** -/
theorem failover_never_ends :
    ¬ FailoverBounded (fun _ => none) aloneNode.serverCtx (Message.new.settype .LOCAL) .new ∧
    ∀ n, ∃ f, iterate (attempt fun _ => none) n
      (.start aloneNode.serverCtx (Message.new.settype .LOCAL) .new) = some f := by
  have hreaches (source : DrccpEndpoint) :
      ¬ Reaches (fun _ => none) aloneNode.serverCtx source := fun ⟨_, _, hreach⟩ => hreach rfl
  refine ⟨not_failoverBounded _ (hreaches _), fun n => ?_⟩
  obtain ⟨f, hf, -⟩ := attempts_go_on .new (hreaches _) n
  exact ⟨f, hf⟩

end Jxtd.Computation.Drccp
