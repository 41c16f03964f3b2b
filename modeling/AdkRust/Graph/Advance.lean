import AdkRust.Graph.FanIn

/-!
# How the frontier advances

What `filter_deferred_nodes` does to the executor and which frontier it computes (`Advanced`), phase
by phase: the arrivals of the step are recorded (`takeCandidates_spec`), the waiting joins are checked,
and those that are to be released are released (`releaseAll_spec`).

* `filterDeferredNodes_spec`, `advanceFrontier_spec`, `entryFrontier_spec`: the three results the
  rest of the development uses.
-/

namespace Adk

/-! ## The candidates of a step -/

variable {names : List String}

theorem mem_pushName {name n : String} :
    n ∈ pushName names name ↔ n ∈ names ∨ n = name := by
  unfold pushName
  split
  · constructor
    · exact .inl
    · rintro (h | rfl)
      · exact h
      · assumption
  · simp

theorem nodup_pushName (h : names.Nodup) (name : String) :
    (pushName names name).Nodup := by
  unfold pushName
  split
  · exact h
  · rename_i hn
    exact List.nodup_append.mpr ⟨h, by simp, by grind⟩

theorem nodup_foldl_pushName (h : names.Nodup) (more : List String) :
    (more.foldl pushName names).Nodup := by
  induction more generalizing names with
  | nil => exact h
  | cons n more ih => exact ih (nodup_pushName h n)

theorem mem_foldl_pushName {more : List String} {n : String} :
    n ∈ more.foldl pushName names ↔ n ∈ names ∨ n ∈ more := by
  induction more generalizing names with
  | nil => simp
  | cons m more ih =>
    rw [List.foldl_cons, ih, mem_pushName, List.mem_cons]
    tauto

namespace Exec

variable {g : CompiledGraph}

/-- One target of a `goto`: the frontier stays free of duplicates and made of the routes' targets. -/
private theorem followGoto_inv {next next' : List String × List Route} {route : Route}
    (h : followGoto g next route = .ok next')
    (hn : next.1.Nodup ∧ ∀ n, n ∈ next.1 ↔ ∃ s, (s, n) ∈ next.2) :
    next'.1.Nodup ∧ ∀ n, n ∈ next'.1 ↔ ∃ s, (s, n) ∈ next'.2 := by
  obtain ⟨source, target⟩ := route
  unfold followGoto at h
  split at h
  · cases h; exact hn
  · split at h
    · cases h
    · cases h
      refine ⟨nodup_pushName hn.1 _, fun n => ?_⟩
      simp only [mem_pushName, hn.2 n, List.mem_append, List.mem_singleton, Prod.mk.injEq]
      constructor
      · rintro (⟨s, hs⟩ | rfl)
        · exact ⟨s, .inl hs⟩
        · exact ⟨source, .inr ⟨rfl, rfl⟩⟩
      · rintro ⟨s, hs | ⟨-, rfl⟩⟩
        · exact .inl ⟨s, hs⟩
        · exact .inr rfl

variable {e e' e₀ : Exec} {candidates ready inFlight waiting frontier : List String} {routes : List Route}
  {updates : Dict (Dict Value)}

/-- The candidates of a step are the targets of its routes, each once. -/
theorem nextFrontier_spec {executed : List String} {goto : Dict (List String)}
    (h : nextFrontier g e executed goto = .ok (candidates, routes)) :
    candidates.Nodup ∧ ∀ n, n ∈ candidates ↔ ∃ s, (s, n) ∈ routes := by
  rw [nextFrontier, bind_eq_ok] at h
  obtain ⟨followed, -, h⟩ := h
  refine foldlM_ok_inv
    (fun _ (next : List String × List Route) =>
      next.1.Nodup ∧ ∀ n, n ∈ next.1 ↔ ∃ s, (s, n) ∈ next.2)
    (fun route _ acc acc' hacc hf => followGoto_inv hf hacc) ?_ h
  have hfold : followed.foldl (fun next route => pushName next route.2) [] =
      (followed.map Prod.snd).foldl pushName [] := by rw [List.foldl_map]
  refine ⟨?_, fun n => ?_⟩
  · rw [hfold]
    exact nodup_foldl_pushName .nil _
  · rw [hfold, mem_foldl_pushName]
    simp

/-- Without a `goto` every route of a step is a declared edge of an executed node. -/
theorem links_of_nextFrontier {executed : List String}
    (h : nextFrontier g e executed ∅ = .ok (candidates, routes))
    {route : Route} (hr : route ∈ routes) : route.1 ∈ executed ∧ g.Links route.1 route.2 := by
  rw [nextFrontier, bind_eq_ok] at h
  obtain ⟨followed, hf, h⟩ := h
  obtain ⟨-, rfl⟩ : _ ∧ followed = routes := by
    simpa [pure, Except.pure, show (∅ : Dict (List String)).toList = [] from rfl] using h
  obtain ⟨hex, hl⟩ := CompiledGraph.links_of_mem_routesFrom hf hr
  exact ⟨by simpa using hex, hl⟩

/-! ## Recording the arrivals -/

/-- The arrivals at a candidate are the sources that route to it; one of them is dropped only when
the candidate was released without it. -/
theorem takeArrivals_spec (candidate : String) (routes : List Route) (abandoned : Names)
    (s : String) :
    ((s, candidate) ∈ routes ↔
      s ∈ (takeArrivals candidate routes abandoned).1 ∨
        s ∈ (takeArrivals candidate routes abandoned).2.1) ∧
      (s ∈ (takeArrivals candidate routes abandoned).2.1 → s ∈ abandoned) := by
  let P (items : List Route) (acc : List String × List String × Names) : Prop :=
    ((s, candidate) ∈ routes ↔ s ∈ acc.1 ∨ s ∈ acc.2.1 ∨ (s, candidate) ∈ items) ∧
      (s ∈ acc.2.1 → s ∈ abandoned) ∧ ∀ x ∈ acc.2.2, x ∈ abandoned
  let take (acc : List String × List String × Names) (route : Route) :
      List String × List String × Names :=
    if route.2 ≠ candidate then acc
    else if route.1 ∈ acc.2.2 then (acc.1, acc.2.1 ++ [route.1], acc.2.2.erase route.1)
    else (acc.1 ++ [route.1], acc.2.1, acc.2.2)
  have hstep : ∀ (route : Route) (items : List Route) (acc : List String × List String × Names),
      P (route :: items) acc → P items (take acc route) := by
    rintro ⟨source, target⟩ items acc ⟨h₁, h₂, h₃⟩
    by_cases ht : target = candidate
    · subst ht
      by_cases hs : source ∈ acc.2.2
      · simp only [P, take, ne_eq, not_true_eq_false, if_false, hs, if_true, List.mem_append,
          List.mem_singleton, Std.ExtTreeSet.mem_erase, Std.compare_eq_iff_eq]
        refine ⟨?_, ?_, fun x hx => h₃ x hx.2⟩
        · rw [h₁, List.mem_cons, Prod.mk.injEq]
          tauto
        · rintro (h | rfl)
          · exact h₂ h
          · exact h₃ _ hs
      · simp only [P, take, ne_eq, not_true_eq_false, if_false, hs, List.mem_append,
          List.mem_singleton]
        refine ⟨?_, h₂, h₃⟩
        rw [h₁, List.mem_cons, Prod.mk.injEq]
        tauto
    · simp only [P, take, ne_eq, ht, not_false_eq_true, if_true]
      refine ⟨?_, h₂, h₃⟩
      rw [h₁, List.mem_cons, Prod.mk.injEq]
      have : ¬ (s = source ∧ candidate = target) := fun h => ht h.2.symm
      tauto
  have h0 : P routes ([], [], abandoned) := ⟨by simp, by simp, fun _ hx => hx⟩
  have heq : takeArrivals candidate routes abandoned = routes.foldl take ([], [], abandoned) := rfl
  obtain ⟨h₁, h₂, -⟩ := foldl_inv P hstep h0
  rw [← heq] at h₁ h₂
  exact ⟨by simpa using h₁, h₂⟩

/-- What the fan-in nodes have on record when a candidate has taken its arrivals. -/
def arrivalEvents (routes : List Route) (updates : Dict (Dict Value)) (abandoned : Dict Names)
    (candidate : String) : List FanInEvent :=
  let (arrivals, dropped, _) :=
    takeArrivals candidate routes (abandoned.getD candidate ∅)
  dropped.map (.ignored candidate) ++
    arrivals.map fun source => .arrived candidate source (arrivalOutput source updates[source]?)

theorem takeCandidate_deferred (routes : List Route) (updates : Dict (Dict Value)) (now : Clock)
    (e : Exec) (ready : List String) {candidate : String} (hd : candidate ∈ g.deferredConfigs) :
    ∃ e', takeCandidate g routes updates now (e, ready) candidate = (e', ready) ∧
      FanInMoves g e e' ∧ (∀ n ∈ e'.pendingDeferred, n ∈ e.pendingDeferred ∨ n = candidate) ∧
      (∀ n ≠ candidate, e'.abandonedArrivals[n]? = e.abandonedArrivals[n]?) ∧
      e'.journal = e.journal ++ arrivalEvents routes updates e.abandonedArrivals candidate := by
  have hc : g.deferredConfigs.contains candidate = true := Std.ExtTreeMap.contains_iff_mem.mpr hd
  simp only [takeCandidate, hc, Bool.not_true, Bool.false_eq_true, if_false, arrivalEvents]
  generalize takeArrivals candidate routes (e.abandonedArrivals.getD candidate ∅) = taken
  obtain ⟨arrivals, dropped, abandoned⟩ := taken
  have hne : ∀ n ≠ candidate, (e.abandonedArrivals.insert candidate abandoned)[n]? =
      e.abandonedArrivals[n]? := by
    intro n hn
    simp [Std.ExtTreeMap.getElem?_insert, hn.symm]
  split
  · rename_i he
    obtain ⟨rfl, -⟩ : arrivals = [] ∧ e.pendingDeferred.contains candidate = false := by
      simpa using he
    exact ⟨_, rfl, .single (.drop _ candidate dropped), fun n hn => .inl hn, hne, by simp⟩
  · refine ⟨_, rfl, .tail (.single (.drop _ candidate dropped)) (.record _ now hd), ?_, hne, ?_⟩
    · intro n hn
      rcases Std.ExtTreeMap.mem_insert.mp hn with h | h
      · exact .inr (Std.LawfulEqCmp.eq_of_compare h).symm
      · exact .inl h
    · simp [recordAt, Function.comp_def]

def deferredOf (g : CompiledGraph) (names : List String) : List String :=
  names.filter fun n => g.deferredConfigs.contains n

def undeferredOf (g : CompiledGraph) (names : List String) : List String :=
  names.filter fun n => !g.deferredConfigs.contains n

/-- No deferred node is left with nothing to drop. -/
def NoneIdle (e : Exec) : Prop := ∀ node : String, e.abandonedArrivals[node]? ≠ some ∅

theorem takeCandidates_spec {now : Clock} (hc : candidates.Nodup)
    (h : takeCandidates g e candidates routes updates now = (e', ready)) :
    FanInMoves g e e' ∧ ready = undeferredOf g candidates ∧ NoneIdle e' ∧
      (∀ n ∈ e'.pendingDeferred, n ∈ e.pendingDeferred ∨ n ∈ deferredOf g candidates) ∧
      e'.journal = e.journal ++
        (deferredOf g candidates).flatMap (arrivalEvents routes updates e.abandonedArrivals) := by
  suffices hfold : ∀ (items : List String) (e₁ : Exec) (ready₁ : List String), items.Nodup →
      (∀ n ∈ items, e₁.abandonedArrivals[n]? = e.abandonedArrivals[n]?) →
      ∃ e₂, items.foldl (takeCandidate g routes updates now) (e₁, ready₁) =
          (e₂, ready₁ ++ undeferredOf g items) ∧ FanInMoves g e₁ e₂ ∧
        (∀ n ∈ e₂.pendingDeferred, n ∈ e₁.pendingDeferred ∨ n ∈ deferredOf g items) ∧
        e₂.journal = e₁.journal ++
          (deferredOf g items).flatMap (arrivalEvents routes updates e.abandonedArrivals) by
    obtain ⟨e₂, hf, hm, hp, hj⟩ := hfold candidates e [] hc (fun _ _ => rfl)
    simp only [takeCandidates, hf, List.nil_append, Prod.mk.injEq] at h
    obtain ⟨rfl, rfl⟩ := h
    refine ⟨.tail hm ?_, rfl, fun n hn => ?_, hp, hj⟩
    · simpa using FanInStep.drop (g := g) (e := e₂)
        (e₂.abandonedArrivals.filter fun _ sources => !sources.isEmpty) "" []
    · change (e₂.abandonedArrivals.filter fun _ sources => !sources.isEmpty)[n]? = some ∅ at hn
      rw [Std.ExtTreeMap.getElem?_filter'] at hn
      obtain ⟨-, hne⟩ := Option.filter_eq_some_iff.mp hn
      simp at hne
  intro items
  induction items with
  | nil =>
    exact fun e₁ ready₁ _ _ =>
      ⟨e₁, by simp [undeferredOf], .refl, fun _ hn => .inl hn, by simp [deferredOf]⟩
  | cons c items ih =>
    intro e₁ ready₁ hnd ha
    rw [List.nodup_cons] at hnd
    by_cases hd : g.deferredConfigs.contains c = true
    · obtain ⟨e₂, hf, hm, hp, hab, hj⟩ := takeCandidate_deferred routes updates now e₁ ready₁ hd
      obtain ⟨e₃, hf', hm', hp', hj'⟩ := ih e₂ ready₁ hnd.2 fun n hn => by
        rw [hab n (fun he => hnd.1 (he ▸ hn)), ha n (List.mem_cons_of_mem c hn)]
      have hdc : deferredOf g (c :: items) = c :: deferredOf g items := by simp [deferredOf, hd]
      have huc : undeferredOf g (c :: items) = undeferredOf g items := by simp [undeferredOf, hd]
      refine ⟨e₃, by rw [List.foldl_cons, hf, hf', huc], hm.trans hm', fun n hn => ?_, ?_⟩
      · rw [hdc, List.mem_cons]
        rcases hp' n hn with h | h
        · rcases hp n h with h | h
          · exact .inl h
          · exact .inr (.inl h)
        · exact .inr (.inr h)
      · have : arrivalEvents routes updates e₁.abandonedArrivals c =
            arrivalEvents routes updates e.abandonedArrivals c := by
          simp only [arrivalEvents, Std.ExtTreeMap.getD_eq_getD_getElem?, ha c (by simp)]
        rw [hdc, List.flatMap_cons, hj', hj, this, List.append_assoc]
    · obtain ⟨e₃, hf', hm', hp', hj'⟩ := ih e₁ (ready₁ ++ [c]) hnd.2 fun n hn =>
        ha n (List.mem_cons_of_mem c hn)
      have hdc : deferredOf g (c :: items) = deferredOf g items := by simp [deferredOf, hd]
      have huc : undeferredOf g (c :: items) = c :: undeferredOf g items := by
        simp [undeferredOf, hd]
      have ht : takeCandidate g routes updates now (e₁, ready₁) c = (e₁, ready₁ ++ [c]) := by
        simp [takeCandidate, hd]
      refine ⟨e₃, ?_, hm', by rwa [hdc], by rwa [hdc]⟩
      rw [List.foldl_cons, ht, hf', huc, List.append_assoc, List.singleton_append]

/-! ## Releasing the joins -/

/-- Nothing a join still expects can run before it, the nodes in `sources` being those that run next
or wait. -/
def NoneCanArrive (g : CompiledGraph) (sources : List String) (join : String)
    (tracker : FanInTracker) : Prop :=
  ∃ next, sources ⊆ next ∧ stillExpected tracker (reachableFor g join next) = false

/-- How far the release of the waiting joins has come: from the executor `e₀`, in which `waiting`
wait, to the executor `e` and the frontier `ready`. -/
structure Releasing (g : CompiledGraph) (e₀ : Exec) (ready₀ inFlight waiting : List String)
    (e : Exec) (ready : List String) : Prop where
  moves : FanInMoves g e₀ e
  noneIdle : NoneIdle e
  nodup : ready.Nodup
  source : ∀ n ∈ ready, n ∈ ready₀ ∨ n ∈ waiting
  kept : ∀ n ∈ e.pendingDeferred, n ∈ waiting
  /-- A node on the frontier no longer waits. -/
  apart : ∀ n ∈ ready, n ∉ e.pendingDeferred
  /-- Only releases are added to the journal, and those by reachability are sound. -/
  journal : ∃ releases, e.journal = e₀.journal ++ releases ∧
    ∀ event ∈ releases, ∃ join rule tracker, event = FanInEvent.released join rule tracker ∧
      (rule = .reachability →
        NoneCanArrive g (ready₀ ++ inFlight ++ waiting) join tracker)

namespace Releasing

variable {e₀ e e' : Exec} {ready₀ inFlight waiting ready : List String}

theorem release (h : Releasing g e₀ ready₀ inFlight waiting e ready) {join : String}
    {rule : ReleaseRule} {tracker : FanInTracker} {checkMinimum : Bool}
    (ht : e.pendingDeferred[join]? = some tracker)
    (hs : rule = .reachability → NoneCanArrive g (ready₀ ++ inFlight ++ waiting) join tracker)
    (hr : releaseJoin g e rule join checkMinimum = .ok e') :
    Releasing g e₀ ready₀ inFlight waiting e' (ready ++ [join]) ∧
      ∀ n ≠ join, e'.pendingDeferred[n]? = e.pendingDeferred[n]? := by
  have hm : join ∈ e.pendingDeferred := by
    rw [← Std.ExtTreeMap.isSome_getElem?_iff_mem, ht]; rfl
  have hstep : FanInStep g e e' := .release ht hr
  obtain ⟨state, rfl⟩ := releaseJoin_ok ht hr
  refine ⟨⟨h.moves.tail hstep, fun n hn => ?_, ?_, fun n hn => ?_, fun n hn => ?_,
    fun n hn hw => ?_, ?_⟩, fun n hn => ?_⟩
  · rw [Std.ExtTreeMap.getElem?_erase] at hn
    split at hn
    · cases hn
    · exact h.noneIdle n hn
  · refine List.nodup_append.mpr ⟨h.nodup, by simp, ?_⟩
    rintro a ha b hb rfl
    rw [List.mem_singleton] at hb
    exact h.apart a ha (hb ▸ hm)
  · rcases List.mem_append.mp hn with hn | hn
    · exact h.source n hn
    · rw [List.mem_singleton] at hn
      exact .inr (hn ▸ h.kept join hm)
  · exact h.kept n (Std.ExtTreeMap.mem_of_mem_erase hn)
  · obtain ⟨hne, hw⟩ := Std.ExtTreeMap.mem_erase.mp hw
    rcases List.mem_append.mp hn with hn | hn
    · exact h.apart n hn hw
    · rw [List.mem_singleton] at hn
      exact hne (by rw [hn]; exact Std.compare_self)
  · obtain ⟨releases, hj, hrel⟩ := h.journal
    refine ⟨_, by rw [hj, List.append_assoc], fun event he => ?_⟩
    rcases List.mem_append.mp he with he | he
    · exact hrel event he
    · split at he
      · rw [List.mem_singleton] at he
        exact ⟨join, rule, tracker, he, hs⟩
      · simp at he
  · simp [Std.ExtTreeMap.getElem?_erase, hn.symm]

/-- Marking predecessors as late leaves the rest. -/
theorem mark (h : Releasing g e₀ ready₀ inFlight waiting e ready) {join : String}
    {abandoned : Names} (ha : abandoned ≠ ∅) :
    Releasing g e₀ ready₀ inFlight waiting
      { e with abandonedArrivals := e.abandonedArrivals.insert join abandoned } ready := by
  refine ⟨?_, fun n hn => ?_, h.nodup, h.source, h.kept, h.apart, h.journal⟩
  · have hstep := FanInStep.drop (g := g) (e := e) (e.abandonedArrivals.insert join abandoned) join []
    rw [List.map_nil, List.append_nil] at hstep
    exact h.moves.tail hstep
  · rw [Std.ExtTreeMap.getElem?_insert] at hn
    split at hn
    · exact ha (Option.some.inj hn)
    · exact h.noneIdle n hn

end Releasing

theorem checkJoin_spec {released ready' released' : List String} {now : Clock} {join : String}
    (h : checkJoin g inFlight waiting now (e, ready, released) join = .ok (e', ready', released')) :
    (e' = e ∧ ready' = ready ∧ released' = released) ∨
    (∃ tracker, e.pendingDeferred[join]? = some tracker ∧
      stillExpected tracker (reachableFor g join (ready ++ inFlight ++ waiting)) = false ∧
      e' = e ∧ ready' = ready ∧ released' = released ++ [join]) ∨
    (∃ tracker e₁, e.pendingDeferred[join]? = some tracker ∧
      releaseJoin g e .timeout join false = .ok e₁ ∧ ready' = ready ++ [join] ∧
      released' = released ∧
      (e' = e₁ ∨ ∃ abandoned ≠ ∅,
        e' = { e₁ with abandonedArrivals := e₁.abandonedArrivals.insert join abandoned })) := by
  simp only [checkJoin] at h
  split at h
  case h_2 => cases h; exact .inl ⟨rfl, rfl, rfl⟩
  case h_1 tracker ht =>
    split at h
    · rename_i hs
      cases h
      exact .inr (.inl ⟨tracker, ht, by simpa using hs, rfl, rfl, rfl⟩)
    · split at h
      case h_2 => cases h; exact .inl ⟨rfl, rfl, rfl⟩
      case h_1 config hc =>
        split at h
        case h_2 => cases h; exact .inl ⟨rfl, rfl, rfl⟩
        case h_1 timeout hto =>
          split at h
          · cases h; exact .inl ⟨rfl, rfl, rfl⟩
          · split at h
            · cases h
            · obtain ⟨e₁, hr, h⟩ := bind_eq_ok.mp h
              refine .inr (.inr ⟨tracker, e₁, ht, hr, ?_⟩)
              cases h
              refine ⟨rfl, rfl, ?_⟩
              split
              · exact .inl rfl
              · rename_i hne
                exact .inr ⟨_, fun he => hne (by rw [he]; rfl), rfl⟩

/-- The joins to be released once every waiting join has been checked. -/
structure Checked (g : CompiledGraph) (e₀ : Exec) (ready₀ inFlight waiting items : List String)
    (e : Exec) (ready released : List String) : Prop where
  releasing : Releasing g e₀ ready₀ inFlight waiting e ready
  start : ready₀ ⊆ ready
  nodup : (released ++ items).Nodup
  sound : ∀ join ∈ released, ∃ tracker, e.pendingDeferred[join]? = some tracker ∧
    NoneCanArrive g (ready₀ ++ inFlight ++ waiting) join tracker

theorem Checked.step {now : Clock} {join : String} {ready₀ items released ready' released' : List String}
    (h : Checked g e₀ ready₀ inFlight waiting (join :: items) e ready released)
    (hc : checkJoin g inFlight waiting now (e, ready, released) join = .ok (e', ready', released')) :
    Checked g e₀ ready₀ inFlight waiting items e' ready' released' := by
  have hnd : (released ++ items).Nodup ∧ join ∉ released ∧ join ∉ items := by
    have := h.nodup
    rw [List.nodup_append, List.nodup_cons] at this
    rw [List.nodup_append]
    grind
  rcases checkJoin_spec hc with ⟨rfl, rfl, rfl⟩ | ⟨tracker, ht, hs, rfl, rfl, rfl⟩ |
    ⟨tracker, e₁, ht, hr, rfl, hreld, he'⟩
  · exact ⟨h.releasing, h.start, hnd.1, h.sound⟩
  · refine ⟨h.releasing, h.start, by simpa using h.nodup, fun j hj => ?_⟩
    rcases List.mem_append.mp hj with hj | hj
    · exact h.sound j hj
    · obtain rfl := List.mem_singleton.mp hj
      refine ⟨tracker, ht, _, ?_, hs⟩
      intro n hn
      simp only [List.mem_append] at hn ⊢
      rcases hn with (hn | hn) | hn
      · exact .inl (.inl (h.start hn))
      · exact .inl (.inr hn)
      · exact .inr hn
  · subst hreld
    obtain ⟨hrel, hsame⟩ := h.releasing.release ht (by simp) hr
    have hsnd : ∀ j ∈ released', ∃ tracker, e₁.pendingDeferred[j]? = some tracker ∧
        NoneCanArrive g (ready₀ ++ inFlight ++ waiting) j tracker := by
      intro j hj
      rw [hsame j fun he => hnd.2.1 (he ▸ hj)]
      exact h.sound j hj
    have hsta : ready₀ ⊆ ready ++ [join] := fun n hn => List.mem_append_left _ (h.start hn)
    rcases he' with rfl | ⟨abandoned, hne, rfl⟩
    · exact ⟨hrel, hsta, hnd.1, hsnd⟩
    · exact ⟨hrel.mark hne, hsta, hnd.1, hsnd⟩

theorem releaseAll_spec {ready₀ items : List String}
    {rule : ReleaseRule} (h : Releasing g e₀ ready₀ inFlight waiting e ready) (hnd : items.Nodup)
    (hs : ∀ join ∈ items, ∃ tracker, e.pendingDeferred[join]? = some tracker ∧
      (rule = .reachability → NoneCanArrive g (ready₀ ++ inFlight ++ waiting) join tracker))
    (hf : items.foldlM (releaseInto g rule) (e, ready) = .ok (e', frontier)) :
    Releasing g e₀ ready₀ inFlight waiting e' frontier ∧ frontier = ready ++ items := by
  induction items generalizing e ready with
  | nil =>
    cases hf
    exact ⟨h, by simp⟩
  | cons join items ih =>
    rw [List.foldlM_cons, bind_eq_ok] at hf
    obtain ⟨acc, hone, hf⟩ := hf
    rw [releaseInto, bind_eq_ok] at hone
    obtain ⟨e₁, hr, hacc⟩ := hone
    cases hacc
    obtain ⟨tracker, ht, hsnd⟩ := hs join (by simp)
    obtain ⟨h₁, hsame⟩ := h.release ht hsnd hr
    rw [List.nodup_cons] at hnd
    obtain ⟨h₂, hfr⟩ := ih h₁ hnd.2 (fun j hj => by
      obtain ⟨t, ht', hs'⟩ := hs j (by simp [hj])
      exact ⟨t, by rw [hsame j fun he => hnd.1 (he ▸ hj), ht'], hs'⟩) hf
    exact ⟨h₂, by rw [hfr, List.append_assoc]; rfl⟩

/-! ## The next frontier -/

/-- **What advancing the frontier does.** From `e`, with the candidates and routes of a step and the
nodes that run again, to `e'` and the frontier. -/
structure Advanced (g : CompiledGraph) (e : Exec) (candidates : List String) (routes : List Route)
    (updates : Dict (Dict Value)) (inFlight : List String) (e' : Exec) (frontier : List String) :
    Prop where
  moves : FanInMoves g e e'
  noneIdle : NoneIdle e'
  nodup : frontier.Nodup
  source : ∀ n ∈ frontier, n ∈ candidates ∨ n ∈ e.pendingDeferred
  waiting : ∀ n ∈ e'.pendingDeferred, n ∈ candidates ∨ n ∈ e.pendingDeferred
  drained : frontier = [] → inFlight = [] → e'.pendingDeferred = ∅
  /-- The journal grows by the arrivals of the step and by releases. A join that is released by
  reachability expects nothing that the frontier, the nodes in flight or the joins left waiting can
  lead to. -/
  journal : ∃ releases, e'.journal = e.journal ++
      (deferredOf g candidates).flatMap (arrivalEvents routes updates e.abandonedArrivals) ++
      releases ∧
    ∀ event ∈ releases, ∃ join rule tracker, event = FanInEvent.released join rule tracker ∧
      (rule = .reachability → ∃ sources, frontier ⊆ sources ∧ inFlight ⊆ sources ∧
        (∀ n ∈ e'.pendingDeferred, n ∈ sources) ∧ NoneCanArrive g sources join tracker)

/-- The releases of a step come to an end. -/
private theorem advanced_of_releasing {now : Clock} (hc : candidates.Nodup)
    (ht : takeCandidates g e candidates routes updates now = (e₀, undeferredOf g candidates))
    (h : Releasing g e₀ (undeferredOf g candidates) inFlight e₀.pendingDeferred.keys e' frontier)
    (hd : frontier = [] → inFlight = [] → e'.pendingDeferred = ∅) :
    Advanced g e candidates routes updates inFlight e' frontier := by
  obtain ⟨hm, -, -, hw, hj⟩ := takeCandidates_spec hc ht
  have hwait : ∀ n ∈ e₀.pendingDeferred.keys, n ∈ candidates ∨ n ∈ e.pendingDeferred := by
    intro n hn
    rcases hw n (Std.ExtTreeMap.mem_keys.mp hn) with h | h
    · exact .inr h
    · exact .inl (List.mem_filter.mp h).1
  refine ⟨hm.trans h.moves, h.noneIdle, h.nodup, fun n hn => ?_, fun n hn => hwait n (h.kept n hn),
    hd, ?_⟩
  · rcases h.source n hn with hn | hn
    · exact .inl (List.mem_filter.mp hn).1
    · exact hwait n hn
  · obtain ⟨releases, hj', hrel⟩ := h.journal
    refine ⟨releases, by rw [hj', hj], fun event he => ?_⟩
    obtain ⟨join, rule, tracker, heq, hs⟩ := hrel event he
    refine ⟨join, rule, tracker, heq, fun hr => ⟨_, fun n hn => ?_, ?_, fun n hn => ?_, hs hr⟩⟩
    · rcases h.source n hn with hn | hn <;> simp [hn]
    · intro n hn
      simp [hn]
    · simp only [List.mem_append]
      exact .inr (h.kept n hn)

theorem filterDeferredNodes_spec {now : Clock} (hc : candidates.Nodup)
    (hk : ∀ n ∈ e.pendingDeferred, n ∈ g.deferredConfigs)
    (h : filterDeferredNodes g e candidates routes updates inFlight now = .ok (e', frontier)) :
    Advanced g e candidates routes updates inFlight e' frontier := by
  simp only [filterDeferredNodes] at h
  generalize ht : takeCandidates g e candidates routes updates now = taken at h
  obtain ⟨e₀, ready₀⟩ := taken
  obtain ⟨-, rfl, hidle, hw, -⟩ := takeCandidates_spec hc ht
  have hdef : ∀ n ∈ e₀.pendingDeferred, n ∈ g.deferredConfigs := by
    intro n hn
    rcases hw n hn with h | h
    · exact hk n h
    · exact Std.ExtTreeMap.contains_iff_mem.mp (List.mem_filter.mp h).2
  have h₀ : Releasing g e₀ (undeferredOf g candidates) inFlight e₀.pendingDeferred.keys e₀
      (undeferredOf g candidates) := by
    refine ⟨.refl, hidle, hc.filter _, fun n hn => .inl hn, fun n hn => ?_, fun n hn hw => ?_,
      [], by simp, by simp⟩
    · exact Std.ExtTreeMap.mem_keys.mpr hn
    · have hnot := (List.mem_filter.mp hn).2
      rw [Std.ExtTreeMap.contains_iff_mem.mpr (hdef n hw)] at hnot
      cases hnot
  dsimp only at h
  split at h
  · rename_i hemp
    cases h
    exact advanced_of_releasing hc ht h₀ fun _ _ => Std.ExtTreeMap.isEmpty_iff.mp hemp
  · obtain ⟨⟨e₁, ready₁, released⟩, hcheck, hrest⟩ := bind_eq_ok.mp h
    obtain ⟨⟨e₂, ready₂⟩, hrelease, hstalled⟩ := bind_eq_ok.mp hrest
    have hchk := foldlM_ok_inv
      (fun items (acc : Exec × List String × List String) =>
        Checked g e₀ (undeferredOf g candidates) inFlight e₀.pendingDeferred.keys items acc.1 acc.2.1
          acc.2.2)
      (fun join items acc acc' hacc hs => hacc.step hs)
      ⟨h₀, fun _ hn => hn, Std.ExtTreeMap.nodup_keys, by simp⟩ hcheck
    have hnd := hchk.nodup
    rw [List.append_nil] at hnd
    obtain ⟨h₂, -⟩ := releaseAll_spec hchk.releasing hnd
      (fun join hj => by
        obtain ⟨tracker, ht, hs⟩ := hchk.sound join hj
        exact ⟨tracker, ht, fun _ => hs⟩) hrelease
    change releaseStalled g e₂ ready₂ inFlight = .ok (e', frontier) at hstalled
    rw [releaseStalled] at hstalled
    split at hstalled
    · rename_i hstall
      obtain ⟨rfl, rfl⟩ : ready₂ = [] ∧ inFlight = [] := by simpa using hstall
      obtain ⟨h₃, hfr⟩ := releaseAll_spec h₂ Std.ExtTreeMap.nodup_keys
        (fun join hj => by
          obtain ⟨tracker, ht⟩ := Option.isSome_iff_exists.mp
            (Std.ExtTreeMap.isSome_getElem?_iff_mem.mpr (Std.ExtTreeMap.mem_keys.mp hj))
          exact ⟨tracker, ht, by simp⟩) hstalled
      refine advanced_of_releasing hc ht h₃ fun hnil _ => ?_
      -- Had a join been waiting, it would have been released.
      have hkeys : e₂.pendingDeferred.keys = [] := by rw [← List.nil_append (Std.ExtTreeMap.keys _), ← hfr, hnil]
      rw [hkeys] at hstalled
      cases hstalled
      exact Std.ExtTreeMap.eq_empty_iff_forall_not_mem.mpr fun n hn => by
        have := Std.ExtTreeMap.mem_keys.mpr hn
        simp [hkeys] at this
    · rename_i hstall
      cases hstalled
      refine advanced_of_releasing hc ht h₂ fun hnil hfl => ?_
      simp [hnil, hfl] at hstall

theorem advanceFrontier_spec {result : SuperStepResult}
    {now : Clock} (hk : ∀ n ∈ e.pendingDeferred, n ∈ g.deferredConfigs)
    (h : advanceFrontier g e result inFlight now = .ok (e', frontier)) :
    ∃ candidates routes, nextFrontier g e result.executedNodes result.goto = .ok (candidates, routes) ∧
      Advanced g e candidates routes result.updates inFlight e' frontier := by
  rw [advanceFrontier, bind_eq_ok] at h
  obtain ⟨⟨candidates, routes⟩, hn, hf⟩ := h
  exact ⟨candidates, routes, hn, filterDeferredNodes_spec (nextFrontier_spec hn).1 hk hf⟩

theorem getEntryNodes_nodup (g : CompiledGraph) : g.getEntryNodes.Nodup := by
  rw [CompiledGraph.getEntryNodes]
  cases hf : g.edges.findSome? _ with
  | none => exact .nil
  | some targets =>
    obtain ⟨edge, -, he⟩ := List.exists_of_findSome?_eq_some hf
    cases edge with
    | entry targets' distinct =>
      cases he
      exact distinct
    | direct | conditional => cases he

theorem awaitEntries {joins : List String} {now : Clock} (hnd : joins.Nodup)
    (hd : ∀ join ∈ joins, join ∈ g.deferredConfigs) (hn : ∀ join ∈ joins, join ∉ e.pendingDeferred) :
    FanInMoves g e (joins.foldl (awaitEntry g now) e) ∧
      (joins.foldl (awaitEntry g now) e).journal = e.journal ∧
      (joins.foldl (awaitEntry g now) e).abandonedArrivals = e.abandonedArrivals ∧
      ∀ n ∈ (joins.foldl (awaitEntry g now) e).pendingDeferred, n ∈ e.pendingDeferred ∨ n ∈ joins := by
  induction joins generalizing e with
  | nil => exact ⟨.refl, rfl, rfl, fun n hn => .inl hn⟩
  | cons join joins ih =>
    rw [List.nodup_cons] at hnd
    have hstep : FanInStep g e (awaitEntry g now e join) :=
      .await now (hd join (by simp)) (hn join (by simp))
    have hwait : ∀ n ∈ (awaitEntry g now e join).pendingDeferred,
        n ∈ e.pendingDeferred ∨ n = join := by
      intro n hw
      rcases Std.ExtTreeMap.mem_insert.mp hw with hw | hw
      · exact .inr (Std.LawfulEqCmp.eq_of_compare hw).symm
      · exact .inl hw
    obtain ⟨hm, hj, ha, hw⟩ := ih (e := awaitEntry g now e join) hnd.2
      (fun j hj => hd j (by simp [hj])) fun j hj hw => by
        rcases hwait j hw with hw | rfl
        · exact hn j (by simp [hj]) hw
        · exact hnd.1 hj
    refine ⟨hm.head hstep, hj, ha, fun n hn => ?_⟩
    rcases hw n hn with h | h
    · rcases hwait n h with h | rfl
      · exact .inl h
      · exact .inr (by simp)
    · exact .inr (by simp [h])

/-- **A run starts as if its entry nodes were the candidates of a step** that took no routes. -/
theorem entryFrontier_spec {now : Clock} (hd : e.pendingDeferred = ∅) (ha : e.abandonedArrivals = ∅)
    (h : entryFrontier g e now = .ok (e', frontier)) :
    Advanced g e g.getEntryNodes [] ∅ [] e' frontier := by
  have hnil : ∀ candidates : List String, candidates.flatMap
      (arrivalEvents [] ∅ e.abandonedArrivals) = [] := by
    intro candidates
    simp [arrivalEvents, takeArrivals]
  have hent := getEntryNodes_nodup g
  simp only [entryFrontier] at h
  generalize hjoins : g.getEntryNodes.filter (fun node =>
    g.deferredConfigs.contains node && !(g.getUpstreamNodes node).isEmpty) = joins at h
  generalize hready : g.getEntryNodes.filter (fun node =>
    !(g.deferredConfigs.contains node && !(g.getUpstreamNodes node).isEmpty)) = ready at h
  have hreadyNodup : ready.Nodup := hready ▸ hent.filter _
  have hjoin : ∀ n ∈ joins, n ∈ g.getEntryNodes ∧ n ∈ g.deferredConfigs ∧ n ∉ ready := by
    intro n hn
    rw [← hjoins, List.mem_filter] at hn
    obtain ⟨hmem, hp⟩ := hn
    refine ⟨hmem, ?_, fun hr => ?_⟩
    · rw [Bool.and_eq_true] at hp
      exact Std.ExtTreeMap.contains_iff_mem.mp hp.1
    · rw [← hready, List.mem_filter, hp] at hr
      cases hr.2
  have hsub : ∀ n ∈ ready, n ∈ g.getEntryNodes := by
    intro n hn
    rw [← hready] at hn
    exact (List.mem_filter.mp hn).1
  split at h
  · cases h
    refine ⟨.refl, by simp [NoneIdle, ha], hreadyNodup, fun n hn => .inl (hsub n hn), by simp [hd],
      fun _ _ => hd, [], by rw [hnil]; simp, by simp⟩
  · obtain ⟨⟨e₁, released⟩, hf, h⟩ := bind_eq_ok.mp h
    cases h
    have hnd : joins.Nodup := hjoins ▸ hent.filter _
    have hfrs : ∀ join ∈ joins, join ∉ e.pendingDeferred := by simp [hd]
    obtain ⟨hm, hj, hab, hw⟩ := @awaitEntries g e joins now hnd (fun n hn => (hjoin n hn).2.1) hfrs
    have hw' : ∀ n ∈ (joins.foldl (awaitEntry g now) e).pendingDeferred, n ∈ joins := by
      intro n hn
      rcases hw n hn with hn | hn
      · simp [hd] at hn
      · exact hn
    have hadv := filterDeferredNodes_spec .nil (fun n hn => (hjoin n (hw' n hn)).2.1) hf
    have hrel : ∀ n ∈ released, n ∈ joins := by
      intro n hn
      rcases hadv.source n hn with hn | hn
      · simp at hn
      · exact hw' n hn
    refine ⟨hm.trans hadv.moves, hadv.noneIdle, ?_, fun n hn => .inl ?_, fun n hn => .inl ?_,
      fun hfr _ => ?_, ?_⟩
    · refine List.nodup_append.mpr ⟨hreadyNodup, hadv.nodup, ?_⟩
      rintro a ha b hb rfl
      exact (hjoin a (hrel a hb)).2.2 ha
    · rcases List.mem_append.mp hn with hn | hn
      · exact hsub n hn
      · exact (hjoin n (hrel n hn)).1
    · rcases hadv.waiting n hn with hn | hn
      · simp at hn
      · exact (hjoin n (hw' n hn)).1
    · obtain ⟨hr, hrl⟩ := List.append_eq_nil_iff.mp hfr
      exact hadv.drained hrl hr
    · obtain ⟨releases, hjr, hrels⟩ := hadv.journal
      refine ⟨releases, ?_, fun event he => ?_⟩
      · rw [hjr, hj, hnil]
        rfl
      · obtain ⟨join, rule, tracker, heq, hs⟩ := hrels event he
        refine ⟨join, rule, tracker, heq, fun hr => ?_⟩
        obtain ⟨sources, h₁, h₂, h₃, h₄⟩ := hs hr
        exact ⟨sources, List.append_subset.mpr ⟨h₂, h₁⟩, by simp, h₃, h₄⟩

end Exec
end Adk
