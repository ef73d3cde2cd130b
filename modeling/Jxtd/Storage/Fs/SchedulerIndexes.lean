import Jxtd.Storage.Fs.Scheduler

/-!
# The indexes of the scheduler

Every registered service stands once in the index by scope, under its present scope, and nothing
else does. So a strategy finds what it looks for in either index.

* `Indexed`; `SameIndex`: changes that the indexes do not see.
* `Indexed.erase`: taking a service out of both indexes.
* **`Indexed.step`**: every step keeps the agreement.
* **`strategyChoose_selects`**: what a strategy selects, for every random number.
* **`indexed_runActions`**: both, after every run.
-/

namespace Jxtd.Storage.Fs

open Lib

variable {σ : Type} {s s' : Scheduler σ} {sw : Scheduler σ × σ} {id : ℤ} {ids : List ℤ} {p : ℕ}
  {service : Service σ}

/-! ## The two indexes -/

/-- **The two indexes agree**: every object is registered once, and its entry in the other index has
its present scope. -/
structure Indexed (s : Scheduler σ) : Prop where
  fresh : ∀ p, s.heap p ≠ none → p < s.next
  owned : ∀ p, s.heap p ≠ none → ∃ id, s.services.lookup id = some p
  distinct : (s.services.entries.map Sigma.snd).Nodup
  scopes : (s.serviceScope.map fun entry => (some entry.1, entry.2)).Perm
    (s.services.entries.map fun entry => ((s.heap entry.2).map Service.scope, entry.2))

theorem indexed_empty : Indexed ({} : Scheduler σ) where
  fresh _ h := absurd rfl h
  owned _ h := absurd rfl h
  distinct := List.nodup_nil
  scopes := List.Perm.nil

/-- Changes that the indexes do not see. -/
structure SameIndex (s s' : Scheduler σ) : Prop where
  next : s'.next = s.next
  services : s'.services = s.services
  serviceScope : s'.serviceScope = s.serviceScope
  scope : ∀ p, (s'.heap p).map Service.scope = (s.heap p).map Service.scope

theorem SameIndex.refl (s : Scheduler σ) : SameIndex s s := ⟨rfl, rfl, rfl, fun _ => rfl⟩

theorem SameIndex.trans {s'' : Scheduler σ} (h : SameIndex s s') (h' : SameIndex s' s'') :
    SameIndex s s'' :=
  ⟨h'.next.trans h.next, h'.services.trans h.services, h'.serviceScope.trans h.serviceScope,
    fun p => (h'.scope p).trans (h.scope p)⟩

theorem SameIndex.ne_none (h : SameIndex s s') (hp : s'.heap p ≠ none) : s.heap p ≠ none := by
  intro hnone
  have hscope := h.scope p
  rw [hnone, Option.map_none, Option.map_eq_none_iff] at hscope
  exact hp hscope

theorem Indexed.same (h : Indexed s) (hs : SameIndex s s') : Indexed s' where
  fresh p hp := by
    rw [hs.next]
    exact h.fresh p (hs.ne_none hp)
  owned p hp := by
    rw [hs.services]
    exact h.owned p (hs.ne_none hp)
  distinct := by
    rw [hs.services]
    exact h.distinct
  scopes := by
    rw [hs.serviceScope, hs.services]
    simp only [hs.scope]
    exact h.scopes

/-- A registered object is not deleted. -/
theorem Indexed.live (h : Indexed s) (hid : s.services.lookup id = some p) :
    ∃ service, s.heap p = some service := by
  have hmem : ((s.heap p).map Service.scope, p) ∈
      s.services.entries.map fun entry => ((s.heap entry.2).map Service.scope, entry.2) :=
    List.mem_map.mpr ⟨⟨id, p⟩, AList.mem_lookup_iff.mp hid, rfl⟩
  obtain ⟨entry, -, heq⟩ := List.mem_map.mp (h.scopes.mem_iff.mpr hmem)
  obtain ⟨service, hservice, -⟩ := Option.map_eq_some_iff.mp (Prod.ext_iff.mp heq).1.symm
  exact ⟨service, hservice⟩

/-- The entry of an id and those of the other ids. -/
theorem perm_erase (hid : s.services.lookup id = some p) :
    s.services.entries.Perm (⟨id, p⟩ :: (s.services.erase id).entries) := by
  have hmem : id ∈ s.services.entries.keys :=
    List.mem_keys_of_mem (AList.mem_lookup_iff.mp hid)
  obtain ⟨q, as, bs, has, hentries, herase⟩ := List.exists_of_kerase hmem
  have hq : s.services.lookup id = some q := AList.mem_lookup_iff.mpr (hentries ▸ by simp)
  obtain rfl : q = p := by
    rw [hid] at hq
    exact (Option.some_inj.mp hq).symm
  show s.services.entries.Perm (⟨id, q⟩ :: s.services.entries.kerase id)
  rw [herase, hentries]
  exact List.perm_middle

/-- **Taking a service out of both indexes.** -/
theorem Indexed.erase (h : Indexed s) (hid : s.services.lookup id = some p)
    (hp : s.heap p = some service) :
    (service.scope, p) ∈ s.serviceScope ∧
      p ∉ (s.services.erase id).entries.map Sigma.snd ∧
      ((s.services.erase id).entries.map Sigma.snd).Nodup ∧
      ((s.serviceScope.erase (service.scope, p)).map fun entry => (some entry.1, entry.2)).Perm
        ((s.services.erase id).entries.map fun entry =>
          ((s.heap entry.2).map Service.scope, entry.2)) := by
  have hperm := perm_erase hid
  have hdistinct := (hperm.map Sigma.snd).nodup_iff.mp h.distinct
  rw [List.map_cons, List.nodup_cons] at hdistinct
  have hscopes := h.scopes.trans (hperm.map _)
  rw [List.map_cons, hp, Option.map_some] at hscopes
  have hmem : (service.scope, p) ∈ s.serviceScope := by
    obtain ⟨⟨scope, q⟩, hentry, heq⟩ := List.mem_map.mp (hscopes.mem_iff.mpr List.mem_cons_self)
    cases heq
    exact hentry
  refine ⟨hmem, hdistinct.1, hdistinct.2, ?_⟩
  have hcons := ((List.perm_cons_erase hmem).map fun entry => (some entry.1, entry.2)).symm.trans
    hscopes
  exact (List.perm_cons _).mp hcons

/-- An update of the heap is not seen by the other objects. -/
theorem map_scope_update {entries : List (Sigma fun _ : ℤ => ℕ)} {o : Option (Service σ)}
    (hp : p ∉ entries.map Sigma.snd) :
    (entries.map fun entry => ((Function.update s.heap p o entry.2).map Service.scope, entry.2)) =
      entries.map fun entry => ((s.heap entry.2).map Service.scope, entry.2) := by
  refine List.map_congr_left fun entry hentry => ?_
  have hne : entry.2 ≠ p := by
    rintro rfl
    exact hp (List.mem_map_of_mem hentry)
  rw [Function.update_of_ne hne]

theorem Indexed.registerService (h : Indexed s) (id : ℤ) (operations : Operations σ) (scope : Str) :
    Indexed (s.registerService id operations scope).2 := by
  rw [Scheduler.registerService]
  split_ifs with hid
  · exact h
  have hnone : s.services.lookup id = none := by
    by_contra hne
    exact hid (.inr hne)
  have hnext : s.next ∉ s.services.entries.map Sigma.snd := by
    intro hmem
    obtain ⟨⟨id', q⟩, hq, heq⟩ := List.mem_map.mp hmem
    obtain ⟨service, hservice⟩ := h.live (AList.mem_lookup_iff.mpr hq)
    have hlt := h.fresh q (by rw [hservice]; exact Option.some_ne_none _)
    have hqnext : q = s.next := heq
    omega
  have hentries := AList.entries_insert_of_notMem (AList.lookup_eq_none.mp hnone) (b := s.next)
  refine ⟨fun p hp => ?_, fun p hp => ?_, ?_, ?_⟩
  · show p < s.next + 1
    by_cases hp' : p = s.next
    · omega
    · have hold : s.heap p ≠ none := by
        simpa only [Function.update_of_ne hp'] using hp
      exact Nat.lt_succ_of_lt (h.fresh p hold)
  · show ∃ id', (s.services.insert id s.next).lookup id' = some p
    by_cases hp' : p = s.next
    · exact ⟨id, by rw [AList.lookup_insert, hp']⟩
    · obtain ⟨id', hid'⟩ := h.owned p (by simpa only [Function.update_of_ne hp'] using hp)
      have hne : id' ≠ id := by
        rintro rfl
        rw [hnone] at hid'
        cases hid'
      exact ⟨id', by rw [AList.lookup_insert_ne hne, hid']⟩
  · show ((s.services.insert id s.next).entries.map Sigma.snd).Nodup
    rw [hentries, List.map_cons]
    exact List.nodup_cons.mpr ⟨hnext, h.distinct⟩
  · show ((s.serviceScope ++ [(scope, s.next)]).map fun entry => (some entry.1, entry.2)).Perm
      ((s.services.insert id s.next).entries.map fun entry =>
        ((Function.update s.heap s.next (some { operations, scope }) entry.2).map Service.scope,
          entry.2))
    rw [hentries, List.map_cons, map_scope_update hnext, Function.update_self, List.map_append]
    exact (List.perm_append_singleton _ _).trans (h.scopes.cons _)

theorem Indexed.unloadOne (h : Indexed s) (id : ℤ) : Indexed (s.unloadOne id) := by
  rw [Scheduler.unloadOne]
  cases hfind : s.findService id with
  | none => exact h
  | some found =>
    obtain ⟨p, service⟩ := found
    obtain ⟨hid, hp⟩ := findService_eq_some.mp hfind
    obtain ⟨-, hnot, hdistinct, hscopes⟩ := h.erase hid hp
    have hold {q : ℕ} (hq : Function.update s.heap p none q ≠ none) : q ≠ p ∧ s.heap q ≠ none := by
      have hne : q ≠ p := by
        rintro rfl
        exact hq (Function.update_self ..)
      rw [Function.update_of_ne hne] at hq
      exact ⟨hne, hq⟩
    refine ⟨fun q hq => h.fresh q (hold hq).2, fun q hq => ?_, hdistinct, ?_⟩
    · obtain ⟨hne, hq⟩ := hold hq
      obtain ⟨id', hid'⟩ := h.owned q hq
      have hid_ne : id' ≠ id := by
        rintro rfl
        rw [hid] at hid'
        exact hne (Option.some_inj.mp hid').symm
      exact ⟨id', by rw [AList.lookup_erase_ne hid_ne, hid']⟩
    · show List.Perm _ ((s.services.erase id).entries.map fun entry =>
        ((Function.update s.heap p none entry.2).map Service.scope, entry.2))
      rw [map_scope_update hnot]
      exact hscopes

theorem Indexed.changeScope (h : Indexed s) (id : ℤ) (scope : Str) :
    Indexed (s.changeScope id scope) := by
  rw [Scheduler.changeScope]
  cases hfind : s.findService id with
  | none => exact h
  | some found =>
    obtain ⟨p, service⟩ := found
    obtain ⟨hid, hp⟩ := findService_eq_some.mp hfind
    obtain ⟨hmem, hnot, -, hscopes⟩ := h.erase hid hp
    dsimp only
    rw [if_pos hmem]
    have hold {q : ℕ}
        (hq : Function.update s.heap p (some { service with scope }) q ≠ none) :
        s.heap q ≠ none := by
      by_cases hne : q = p
      · rw [hne, hp]
        exact Option.some_ne_none _
      · rwa [Function.update_of_ne hne] at hq
    refine ⟨fun q hq => h.fresh q (hold hq), fun q hq => h.owned q (hold hq), h.distinct, ?_⟩
    have hentries := (perm_erase hid).map fun entry =>
      ((Function.update s.heap p (some { service with scope }) entry.2).map Service.scope, entry.2)
    rw [List.map_cons, map_scope_update hnot, Function.update_self] at hentries
    refine List.Perm.trans ?_ hentries.symm
    show ((s.serviceScope.erase (service.scope, p) ++ [(scope, p)]).map _).Perm _
    rw [List.map_append]
    exact (List.perm_append_singleton _ _).trans (hscopes.cons _)

/-! ## Steps -/

/-- A change of an object other than its scope. -/
theorem sameIndex_change (hp : s.heap p = some service) {service' : Service σ}
    (hscope : service'.scope = service.scope) (calls : List (Call σ)) :
    SameIndex s (s.change p (some service') calls) := by
  refine ⟨rfl, rfl, rfl, fun q => ?_⟩
  by_cases hq : q = p
  · subst hq
    rw [heap_change_self, hp, Option.map_some, Option.map_some, hscope]
  · rw [heap_change_ne s hq]

theorem sameIndex_enableOne (sw : Scheduler σ × σ) (id : ℤ) :
    SameIndex sw.1 (Scheduler.enableOne sw id).1 := by
  obtain h | ⟨p, service, hfind, -, h | h⟩ := enableOne_cases sw id
  · rw [h]
    exact .refl _
  · rw [h]
    exact sameIndex_change (findService_eq_some.mp hfind).2 (by rfl) _
  · rw [h]
    exact sameIndex_change (findService_eq_some.mp hfind).2 (by rfl) _

theorem sameIndex_disableOne (sw : Scheduler σ × σ) (id : ℤ) :
    SameIndex sw.1 (Scheduler.disableOne sw id).1 := by
  obtain ⟨h, -⟩ | ⟨p, service, hfind, -, h⟩ := disableOne_cases sw id
  · rw [h]
    exact .refl _
  · rw [h]
    exact sameIndex_change (findService_eq_some.mp hfind).2 (by rfl) _

theorem sameIndex_disableService (sw : Scheduler σ × σ) (ids : List ℤ) :
    SameIndex sw.1 (Scheduler.disableService sw ids).1 :=
  List.foldlRecOn (motive := fun sw' : Scheduler σ × σ => SameIndex sw.1 sw'.1)
      ids _ (.refl _) fun _ h _ _ => h.trans (sameIndex_disableOne _ _)

theorem sameIndex_enableService (sw : Scheduler σ × σ) (ids : List ℤ) :
    SameIndex sw.1 (Scheduler.enableService sw ids).1 :=
  List.foldlRecOn (motive := fun sw' : Scheduler σ × σ => SameIndex sw.1 sw'.1)
      ids _ (.refl _) fun _ h _ _ => h.trans (sameIndex_enableOne _ _)

theorem sameIndex_store (hfind : s.findService id = some (p, service)) {service' : Service σ}
    (hscope : service'.scope = service.scope) : SameIndex s (s.store p service') := by
  have h := sameIndex_change (findService_eq_some.mp hfind).2 hscope []
  exact ⟨h.next, h.services, h.serviceScope, h.scope⟩

theorem sameIndex_setOperations (s : Scheduler σ) (id : ℤ) (operations : Operations σ) :
    SameIndex s (s.setOperations id operations) := by
  rw [Scheduler.setOperations]
  cases hfind : s.findService id with
  | none => exact .refl _
  | some found => exact sameIndex_store hfind rfl

theorem sameIndex_setCtx (s : Scheduler σ) (id : ℤ) (ctx : ℕ) : SameIndex s (s.setCtx id ctx) := by
  rw [Scheduler.setCtx]
  cases hfind : s.findService id with
  | none => exact .refl _
  | some found => exact sameIndex_store hfind rfl

/-- **Every step keeps the agreement.** -/
theorem Indexed.step (h : Indexed sw.1) (action : Action σ) : Indexed (step sw action).1 := by
  cases action with
  | registerService id operations scope => exact h.registerService id operations scope
  | enableService ids => exact h.same (sameIndex_enableService sw ids)
  | disableService ids => exact h.same (sameIndex_disableService sw ids)
  | unloadService ids =>
    exact List.foldlRecOn ids _ (h.same (sameIndex_disableService sw ids))
      fun _ hs id _ => hs.unloadOne id
  | strategyChoose policy selectId range scope rand =>
    exact ⟨h.fresh, h.owned, h.distinct, h.scopes⟩
  | changeScope id scope => exact h.changeScope id scope
  | setOperations id operations => exact h.same (sameIndex_setOperations sw.1 id operations)
  | setCtx id ctx => exact h.same (sameIndex_setCtx sw.1 id ctx)

theorem indexed_foldl (h : Indexed sw.1) (actions : List (Action σ)) :
    Indexed (actions.foldl step sw).1 :=
  List.foldlRecOn (motive := fun sw : Scheduler σ × σ => Indexed sw.1)
      actions _ h fun _ h action _ => h.step action

/-! ## What a strategy selects -/

/-- An enabled service in the range of a strategy. -/
def Candidate (s : Scheduler σ) (policy : SchedulingPolicy) (selectId : ℤ) (range : ServiceRange)
    (scope : Str) (p : ℕ) : Prop :=
  ∃ id service, s.services.lookup id = some p ∧ s.heap p = some service ∧ service.status = true ∧
    match policy, range with
    | .Single, _ => id = selectId
    | .LoadBalance, .All => True
    | .LoadBalance, .Specified => service.scope = scope

theorem Indexed.mem_serviceScope (h : Indexed s) {scope : Str} :
    (scope, p) ∈ s.serviceScope ↔
      ∃ id service, s.services.lookup id = some p ∧ s.heap p = some service ∧
        service.scope = scope := by
  have hmem : (scope, p) ∈ s.serviceScope ↔ (some scope, p) ∈
      s.serviceScope.map fun entry => (some entry.1, entry.2) := by
    refine ⟨fun hin => List.mem_map.mpr ⟨_, hin, rfl⟩, fun hin => ?_⟩
    obtain ⟨⟨scope', q⟩, hentry, heq⟩ := List.mem_map.mp hin
    cases heq
    exact hentry
  rw [hmem, h.scopes.mem_iff, List.mem_map]
  constructor
  · rintro ⟨⟨id, q⟩, hin, heq⟩
    obtain ⟨hscope, rfl⟩ := Prod.ext_iff.mp heq
    obtain ⟨service, hservice, hscope⟩ := Option.map_eq_some_iff.mp hscope
    exact ⟨id, service, AList.mem_lookup_iff.mpr hin, hservice, hscope⟩
  · rintro ⟨id, service, hid, hservice, rfl⟩
    exact ⟨⟨id, p⟩, AList.mem_lookup_iff.mp hid, by rw [hservice, Option.map_some]⟩

/-- Some index of a nonempty list is taken. -/
theorem getElem?_mod_eq_none {α : Type} (xs : List α) (rand : ℕ) :
    xs[rand % xs.length]? = none ↔ xs = [] := by
  refine ⟨fun h => ?_, fun h => by rw [h]; rfl⟩
  by_contra hne
  have hlt := Nat.mod_lt rand (List.length_pos_iff.mpr hne)
  exact absurd (List.getElem?_eq_none_iff.mp h) (by omega)

variable {range : List (Str × ℕ)} {rand : ℕ}

theorem mem_enabled :
    p ∈ (range.map Prod.snd).filter (fun p => (s.heap p).any fun service => service.status) ↔
      ∃ scope service, (scope, p) ∈ range ∧ s.heap p = some service ∧ service.status = true := by
  rw [List.mem_filter, List.mem_map, Option.any_eq_true]
  constructor
  · rintro ⟨⟨⟨scope, q⟩, hin, rfl⟩, service, hservice, hstatus⟩
    exact ⟨scope, service, hin, hservice, hstatus⟩
  · rintro ⟨scope, service, hin, hservice, hstatus⟩
    exact ⟨⟨_, hin, rfl⟩, service, hservice, hstatus⟩

theorem balanceSelectService_some (h : s.balanceSelectService range rand = some p) :
    ∃ scope service, (scope, p) ∈ range ∧ s.heap p = some service ∧ service.status = true :=
  mem_enabled.mp (List.mem_of_getElem? h)

theorem balanceSelectService_none :
    s.balanceSelectService range rand = none ↔
      ∀ p, ¬ ∃ scope service, (scope, p) ∈ range ∧ s.heap p = some service ∧
        service.status = true := by
  rw [Scheduler.balanceSelectService, getElem?_mod_eq_none, List.eq_nil_iff_forall_not_mem]
  exact forall_congr' fun p => not_congr mem_enabled

theorem candidate_single (s : Scheduler σ) (selectId : ℤ) (range : ServiceRange) (scope : Str)
    (p : ℕ) :
    Candidate s .Single selectId range scope p ↔
      ((s.findService selectId).filter fun found => found.2.status).map Prod.fst = some p := by
  rw [Option.map_eq_some_iff]
  constructor
  · rintro ⟨id, service, hid, hservice, hstatus, rfl⟩
    exact ⟨(p, service), Option.filter_eq_some_iff.mpr
      ⟨findService_eq_some.mpr ⟨hid, hservice⟩, hstatus⟩, rfl⟩
  · rintro ⟨⟨q, service⟩, hfind, rfl⟩
    obtain ⟨hfind, hstatus⟩ := Option.filter_eq_some_iff.mp hfind
    obtain ⟨hid, hservice⟩ := findService_eq_some.mp hfind
    exact ⟨selectId, service, hid, hservice, hstatus, rfl⟩

theorem candidate_balance (h : Indexed s) (selectId : ℤ) (range : ServiceRange) (scope : Str)
    (p : ℕ) :
    Candidate s .LoadBalance selectId range scope p ↔
      ∃ (scope' : Str) (service : Service σ), ((scope', p) ∈ match range with
        | .Specified => s.serviceScope.filter fun entry : Str × ℕ => entry.1 = scope
        | .All => s.serviceScope) ∧ s.heap p = some service ∧ service.status = true := by
  constructor
  · rintro ⟨id, service, hid, hservice, hstatus, hrange⟩
    have hmem := h.mem_serviceScope.mpr ⟨id, service, hid, hservice, rfl⟩
    refine ⟨service.scope, service, ?_, hservice, hstatus⟩
    cases range with
    | All => exact hmem
    | Specified =>
      have hscope : service.scope = scope := hrange
      exact List.mem_filter.mpr ⟨hmem, decide_eq_true hscope⟩
  · rintro ⟨scope', service, hmem, hservice, hstatus⟩
    have hin : (scope', p) ∈ s.serviceScope := by
      cases range with
      | All => exact hmem
      | Specified => exact (List.mem_filter.mp hmem).1
    obtain ⟨id, service', hid, hservice', hscope'⟩ := h.mem_serviceScope.mp hin
    obtain rfl : service' = service := by
      rw [hservice] at hservice'
      exact (Option.some_inj.mp hservice').symm
    refine ⟨id, service', hid, hservice, hstatus, ?_⟩
    cases range with
    | All => trivial
    | Specified =>
      show service'.scope = scope
      rw [hscope']
      exact of_decide_eq_true (List.mem_filter.mp hmem).2

/-- **A strategy selects a candidate**, and none only where there is none. -/
theorem strategyChoose_selects (h : Indexed s) (policy : SchedulingPolicy) (selectId : ℤ)
    (range : ServiceRange) (scope : Str) (rand : ℕ) :
    (∀ p, (s.strategyChoose policy selectId range scope rand).currentService = some p →
      Candidate s policy selectId range scope p) ∧
    ((s.strategyChoose policy selectId range scope rand).currentService = none ↔
      ∀ p, ¬ Candidate s policy selectId range scope p) := by
  cases policy with
  | Single =>
    simp only [candidate_single]
    exact ⟨fun p hp => hp, Option.eq_none_iff_forall_ne_some⟩
  | LoadBalance =>
    simp only [candidate_balance h]
    cases range with
    | All => exact ⟨fun p hp => balanceSelectService_some hp, balanceSelectService_none⟩
    | Specified => exact ⟨fun p hp => balanceSelectService_some hp, balanceSelectService_none⟩

/-- **The indexes agree after every run**, and every strategy then selects a candidate. -/
theorem indexed_runActions (w : σ) (actions : List (Action σ)) :
    Indexed (runActions w actions).1 ∧
      ∀ policy selectId range scope rand,
        (∀ p, ((runActions w actions).1.strategyChoose policy selectId range scope
            rand).currentService = some p →
          Candidate (runActions w actions).1 policy selectId range scope p) ∧
        (((runActions w actions).1.strategyChoose policy selectId range scope
            rand).currentService = none ↔
          ∀ p, ¬ Candidate (runActions w actions).1 policy selectId range scope p) :=
  have h : Indexed (runActions w actions).1 := indexed_foldl indexed_empty actions
  ⟨h, strategyChoose_selects h⟩

end Jxtd.Storage.Fs
