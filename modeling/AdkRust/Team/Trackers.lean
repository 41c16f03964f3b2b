import AdkRust.Team.Runtime

/-!
# Who holds a tracker

The tracker of an invocation is taken away when its last stream has left, and its receipt is evicted later; a stream
that starts in between is not counted yet.

* `Bound`: the invariant of the trackers, the counts of live streams and the map.
* `Careful`: no stream is starting when the tracker of its invocation is taken away, or its receipt evicted.
* `Bound.step`: a careful step keeps the invariant.
-/

namespace Adk

namespace Team

/-! ## Stands -/

namespace LedgerCall

/-- The tracker that the stream was given. -/
def holds : LedgerCall → Option Nat
  | .budgetTracker => none
  | .enter tracker | .use tracker _ _ | .push tracker _ _ => some tracker

/-- Whether the stream is alive. -/
def entered : LedgerCall → Bool
  | .use _ entered _ | .push _ entered _ => entered
  | .budgetTracker | .enter _ => false

end LedgerCall

namespace Stand

/-- The tracker that a stream holds, until it has left. -/
def holds : Stand → Option Nat
  | .lookup call | .insert call | .found call _ => call.holds
  | .tracked tracker _ _ _ _ | .resting tracker _ | .leaving tracker | .exiting tracker _ => some tracker
  | .reading _ | .syncing _ _ | .taking _ | .retiring | .evicting | .finished => none

/-- Whether a stream has entered and not left. -/
def live : Stand → Bool
  | .lookup call | .insert call | .found call _ => call.entered
  | .tracked _ entered _ _ _ | .resting _ entered => entered
  | .leaving _ | .exiting _ _ => true
  | .reading _ | .syncing _ _ | .taking _ | .retiring | .evicting | .finished => false

/-- Whether a stream has started and not left. -/
def underWay : Stand → Bool
  | .reading _ | .syncing _ _ | .taking _ | .retiring | .evicting | .finished => false
  | _ => true

/-- Whether a stream has started and not entered. -/
def starting (stand : Stand) : Bool := stand.underWay && !stand.live

/-- The ledger that a stream under way has looked up. -/
def engaged : Stand → Option Nat
  | .found _ ledger | .tracked _ _ _ ledger _ | .exiting _ ledger => some ledger
  | _ => none

/-- The ledger of a stream that has left. -/
def parting : Stand → Option Nat
  | .reading ledger | .syncing ledger _ | .taking ledger => some ledger
  | _ => none

/-- A call under way checks the tracker that its stream holds. -/
def Consistent : Stand → Prop
  | .tracked tracker _ _ _ checks => checks = some tracker
  | _ => True

theorem holds_of_live {stand : Stand} (h : stand.live = true) : ∃ tracker, stand.holds = some tracker := by
  have hcall : ∀ call : LedgerCall, call.entered = true → ∃ tracker, call.holds = some tracker := by
    intro call hcall
    cases call with
    | budgetTracker => cases hcall
    | enter tracker => exact ⟨tracker, rfl⟩
    | use tracker entered call => exact ⟨tracker, rfl⟩
    | push tracker entered start => exact ⟨tracker, rfl⟩
  cases stand with
  | lookup call => exact hcall call h
  | insert call => exact hcall call h
  | found call ledger => exact hcall call h
  | tracked tracker _ _ _ _ => exact ⟨tracker, rfl⟩
  | resting tracker _ => exact ⟨tracker, rfl⟩
  | leaving tracker => exact ⟨tracker, rfl⟩
  | exiting tracker _ => exact ⟨tracker, rfl⟩
  | reading _ => cases h
  | syncing _ _ => cases h
  | taking _ => cases h
  | retiring => cases h
  | evicting => cases h
  | finished => cases h

theorem underWay_of_live {stand : Stand} (h : stand.live = true) : stand.underWay = true := by
  cases stand <;> first | rfl | cases h

end Stand

/-! ## Who holds what -/

namespace TeamWorld

/-- How many streams of an invocation are alive. -/
def liveStreams (w : TeamWorld) (id : String) : Nat := w.streams.countP fun s => s.stand.live && s.invocation = id

end TeamWorld

/-- A stand of a stream of an invocation. -/
structure Fits (w : TeamWorld) (id : String) (stand : Stand) : Prop where
  /-- The tracker that it holds is that of the ledger in the map. -/
  holds : ∀ tracker, stand.holds = some tracker →
    ∃ (ledger : Nat) (l : TeamInvocation), w.invocations[id]? = some ledger ∧ w.ledgers[ledger]? = some l ∧
      l.tracker = some tracker
  engaged : ∀ ledger, stand.engaged = some ledger → w.invocations[id]? = some ledger
  consistent : stand.Consistent
  parting : ∀ ledger, stand.parting = some ledger → ∃ l : TeamInvocation, w.ledgers[ledger]? = some l ∧ l.invocationId = id
  present : stand.underWay = true → ∀ gone ∈ w.evicted, gone.1 ≠ id

/-- The invariant of the trackers, the counts of live streams and the map. -/
structure Bound (w : TeamWorld) : Prop where
  owner : ∀ (id : String) (ledger : Nat), w.invocations[id]? = some ledger →
    ∃ l : TeamInvocation, w.ledgers[ledger]? = some l ∧ l.invocationId = id
  fits : ∀ s ∈ w.streams, Fits w s.invocation s.stand
  active : ∀ (id : String) (ledger : Nat) (l : TeamInvocation), w.invocations[id]? = some ledger → w.ledgers[ledger]? = some l →
    l.activeStreams = w.liveStreams id
  gone : ∀ gone ∈ w.evicted, w.invocations[gone.1]? = none ∧
    ∃ l : TeamInvocation, w.ledgers[gone.2]? = some l ∧ l.invocationId = gone.1 ∧ l.snapshot.hasRunningEdges = false

variable {budget : TeamBudget} {w w' : TeamWorld} {i : Nat} {s : TeamStream} {stand stand' : Stand} {id : String}
  {ledger : Nat} {l l' : TeamInvocation}

theorem bound_start : Bound {} where
  owner id ledger h := by simp at h
  fits s hs := by cases hs
  active id ledger l h := by simp at h
  gone e he := by cases he

/-- One element is replaced. -/
theorem countP_set_add {α : Type} {p : α → Bool} {xs : List α} {i : Nat} {a b : α} (hi : xs[i]? = some a) :
    (xs.set i b).countP p + (if p a then 1 else 0) = xs.countP p + (if p b then 1 else 0) := by
  induction xs generalizing i with
  | nil => simp at hi
  | cons x xs ih =>
    cases i with
    | zero =>
      obtain rfl := Option.some.inj hi
      rw [List.set_cons_zero, List.countP_cons, List.countP_cons]
      omega
    | succ i =>
      have := ih hi
      rw [List.set_cons_succ, List.countP_cons, List.countP_cons]
      omega

theorem liveStreams_set (hi : w.streams[i]? = some s) (hstrs : w'.streams = w.streams.set i { s with stand := stand' })
    (id : String) : w'.liveStreams id + (if (s.stand.live && s.invocation = id) = true then 1 else 0) =
      w.liveStreams id + (if (stand'.live && s.invocation = id) = true then 1 else 0) := by
  unfold TeamWorld.liveStreams
  rw [hstrs]
  exact countP_set_add hi

/-- What a step of one stream may make of a ledger. -/
structure Follows (w : TeamWorld) (i : Nat) (s : TeamStream) (stand' : Stand) (ledger : Nat) (l l' : TeamInvocation) :
    Prop where
  id : l'.invocationId = l.invocationId
  others : l.invocationId ≠ s.invocation → l' = l
  tracker : ∀ tracker, l.tracker = some tracker → l'.tracker = some tracker ∨
    ∀ (j : Nat) (s' : TeamStream), w.streams[j]? = some s' → j ≠ i → s'.invocation = s.invocation → s'.stand.holds = none
  active : w.invocations[s.invocation]? = some ledger →
    l'.activeStreams + (if s.stand.live then 1 else 0) = l.activeStreams + (if stand'.live then 1 else 0)
  quiet : s.stand.underWay = false → l'.snapshot.edges = l.snapshot.edges

/-- A step of one stream that leaves the map. -/
theorem Bound.advance (h : Bound w) (hi : w.streams[i]? = some s)
    (hstrs : w'.streams = w.streams.set i { s with stand := stand' }) (hmap : w'.invocations = w.invocations)
    (hevict : w'.evicted = w.evicted)
    (hleds : ∀ (ledger : Nat) (l : TeamInvocation), w.ledgers[ledger]? = some l → ∃ l', w'.ledgers[ledger]? = some l' ∧
      Follows w i s stand' ledger l l')
    (hfits : Fits w' s.invocation stand') : Bound w' := by
  have hs := h.fits s (List.mem_of_getElem? hi)
  refine ⟨fun id ledger hid => ?_, fun s' hs' => ?_, fun id ledger l' hid hl' => ?_, fun gone hgone => ?_⟩
  · rw [hmap] at hid
    obtain ⟨l, hl, howr⟩ := h.owner id ledger hid
    obtain ⟨l', hl', hfol⟩ := hleds ledger l hl
    exact ⟨l', hl', hfol.id.trans howr⟩
  · rw [hstrs] at hs'
    obtain ⟨j, hj⟩ := List.mem_iff_getElem?.mp hs'
    by_cases hji : j = i
    · subst hji
      rw [List.getElem?_set_self (List.getElem?_eq_some_iff.mp hi).1] at hj
      obtain rfl := Option.some.inj hj
      exact hfits
    · rw [List.getElem?_set_ne (Ne.symm hji)] at hj
      have hbef := h.fits s' (List.mem_of_getElem? hj)
      refine ⟨fun tracker hhol => ?_, fun ledger hled => ?_, hbef.consistent, fun ledger hled => ?_,
        fun hway gone hgone => ?_⟩
      · obtain ⟨ledger, l, hid, hl, htrk⟩ := hbef.holds tracker hhol
        obtain ⟨l', hl', hfol⟩ := hleds ledger l hl
        refine ⟨ledger, l', by rw [hmap, hid], hl', ?_⟩
        by_cases hsame : s'.invocation = s.invocation
        · rcases hfol.tracker tracker htrk with hkept | halone
          · exact hkept
          · rw [halone j s' hj hji hsame] at hhol
            cases hhol
        · obtain ⟨own, hown, howr⟩ := h.owner _ _ hid
          obtain rfl := Option.some.inj (hl.symm.trans hown)
          rw [hfol.others (by rw [howr]; exact hsame)]
          exact htrk
      · rw [hmap]
        exact hbef.engaged ledger hled
      · obtain ⟨l, hl, howr⟩ := hbef.parting ledger hled
        obtain ⟨l', hl', hfol⟩ := hleds ledger l hl
        exact ⟨l', hl', hfol.id.trans howr⟩
      · rw [hevict] at hgone
        exact hbef.present hway gone hgone
  · rw [hmap] at hid
    obtain ⟨l, hl, howr⟩ := h.owner id ledger hid
    obtain ⟨found, hfnd, hfol⟩ := hleds ledger l hl
    obtain rfl := Option.some.inj (hfnd.symm.trans hl')
    have hcnt := liveStreams_set hi hstrs id
    have hbef := h.active id ledger l hid hl
    by_cases hsame : s.invocation = id
    · subst hsame
      have := hfol.active hid
      simp only [decide_true, Bool.and_true] at hcnt
      omega
    · simp only [hsame, decide_false, Bool.and_false, Bool.false_eq_true, if_false, Nat.add_zero] at hcnt
      rw [hfol.others (by rw [howr]; exact fun heq => hsame heq.symm), hcnt]
      exact hbef
  · rw [hevict] at hgone
    obtain ⟨hnone, l, hl, howr, hqt⟩ := h.gone gone hgone
    obtain ⟨l', hl', hfol⟩ := hleds _ l hl
    refine ⟨by rw [hmap]; exact hnone, l', hl', hfol.id.trans howr, ?_⟩
    by_cases hsame : l.invocationId = s.invocation
    · have hover : s.stand.underWay = false := by
        rw [← Bool.not_eq_true]
        exact fun hway => hs.present hway gone hgone (howr.symm.trans hsame)
      unfold TeamExecutionSnapshot.hasRunningEdges at hqt ⊢
      rw [hfol.quiet hover]
      exact hqt
    · rw [hfol.others hsame]
      exact hqt

theorem Bound.put (h : Bound w) (hi : w.streams[i]? = some s) (hl : w.ledgers[ledger]? = some l)
    (howr : l.invocationId = s.invocation) (hstrs : w'.streams = w.streams.set i { s with stand := stand' })
    (hmap : w'.invocations = w.invocations) (hevict : w'.evicted = w.evicted)
    (hleds : w'.ledgers = w.ledgers.set ledger l') (hid : l'.invocationId = l.invocationId)
    (htrk : ∀ tracker, l.tracker = some tracker → l'.tracker = some tracker ∨
      ∀ (j : Nat) (s' : TeamStream), w.streams[j]? = some s' → j ≠ i → s'.invocation = s.invocation →
        s'.stand.holds = none)
    (hact : l'.activeStreams + (if s.stand.live then 1 else 0) = l.activeStreams + (if stand'.live then 1 else 0))
    (hlive : w.invocations[s.invocation]? = some ledger ∨ stand'.live = s.stand.live)
    (hqt : s.stand.underWay = false → l'.snapshot.edges = l.snapshot.edges)
    (hfits : Fits w' s.invocation stand') : Bound w' := by
  refine h.advance hi hstrs hmap hevict (fun other found hfnd => ?_) hfits
  by_cases hsame : other = ledger
  · subst hsame
    obtain rfl := Option.some.inj (hl.symm.trans hfnd)
    refine ⟨l', ?_, hid, fun hne => absurd howr hne, htrk, fun _ => hact, hqt⟩
    rw [hleds, List.getElem?_set_self (List.getElem?_eq_some_iff.mp hl).1]
  · refine ⟨found, ?_, rfl, fun _ => rfl, fun _ htrk => .inl htrk, fun hmap => ?_, fun _ => rfl⟩
    · rw [hleds, List.getElem?_set_ne (Ne.symm hsame)]
      exact hfnd
    · rcases hlive with hled | hlive
      · exact absurd (Option.some.inj (hmap.symm.trans hled)) hsame
      · rw [hlive]

/-- A step of one stream that changes no ledger. -/
theorem Bound.move (h : Bound w) (hi : w.streams[i]? = some s)
    (hstrs : w'.streams = w.streams.set i { s with stand := stand' }) (hmap : w'.invocations = w.invocations)
    (hevict : w'.evicted = w.evicted) (hleds : w'.ledgers = w.ledgers) (hlive : stand'.live = s.stand.live)
    (hfits : Fits w' s.invocation stand') : Bound w' := by
  refine h.advance hi hstrs hmap hevict (fun other found hfnd => ⟨found, by rw [hleds, hfnd], rfl, fun _ => rfl,
    fun _ htrk => .inl htrk, fun _ => ?_, fun _ => rfl⟩) hfits
  rw [hlive]

/-- A stand fits a world with the same map whose ledgers belong to the same invocations and have the same trackers. -/
theorem Fits.change (h : Fits w id stand) (hmap : w'.invocations = w.invocations) (hevict : w'.evicted = w.evicted)
    (hleds : ∀ (ledger : Nat) (l : TeamInvocation), w.ledgers[ledger]? = some l →
      ∃ l' : TeamInvocation, w'.ledgers[ledger]? = some l' ∧ l'.invocationId = l.invocationId ∧
        ∀ tracker, l.tracker = some tracker → stand'.holds = some tracker → l'.tracker = some tracker)
    (hhol : ∀ tracker, stand'.holds = some tracker → stand.holds = some tracker)
    (heng : ∀ ledger, stand'.engaged = some ledger → w.invocations[id]? = some ledger)
    (hcons : stand'.Consistent)
    (hpart : ∀ ledger, stand'.parting = some ledger →
      ∃ l : TeamInvocation, w.ledgers[ledger]? = some l ∧ l.invocationId = id)
    (hway : stand'.underWay = true → stand.underWay = true) : Fits w' id stand' := by
  refine ⟨fun tracker hh => ?_, fun ledger hled => ?_, hcons, fun ledger hled => ?_, fun h' gone hgone => ?_⟩
  · obtain ⟨ledger, l, hid, hl, htrk⟩ := h.holds tracker (hhol tracker hh)
    obtain ⟨l', hl', -, hkept⟩ := hleds ledger l hl
    exact ⟨ledger, l', by rw [hmap, hid], hl', hkept tracker htrk hh⟩
  · rw [hmap]
    exact heng ledger hled
  · obtain ⟨l, hl, howr⟩ := hpart ledger hled
    obtain ⟨l', hl', hsame, -⟩ := hleds ledger l hl
    exact ⟨l', hl', hsame.trans howr⟩
  · rw [hevict] at hgone
    exact h.present (hway h') gone hgone

/-- A stand that follows another one where no ledger changes. -/
theorem Fits.next (h : Fits w id stand) (hmap : w'.invocations = w.invocations) (hevict : w'.evicted = w.evicted)
    (hleds : w'.ledgers = w.ledgers) (hhol : ∀ tracker, stand'.holds = some tracker → stand.holds = some tracker)
    (heng : ∀ ledger, stand'.engaged = some ledger → w.invocations[id]? = some ledger)
    (hcons : stand'.Consistent)
    (hpart : ∀ ledger, stand'.parting = some ledger →
      ∃ l : TeamInvocation, w.ledgers[ledger]? = some l ∧ l.invocationId = id)
    (hway : stand'.underWay = true → stand.underWay = true) : Fits w' id stand' :=
  h.change hmap hevict (fun ledger l hl => ⟨l, by rw [hleds, hl], rfl, fun _ htrk _ => htrk⟩) hhol heng
    hcons hpart hway

theorem Bound.engaged (h : Bound w) (hs : s ∈ w.streams) (hled : s.stand.engaged = some ledger) :
    w.invocations[s.invocation]? = some ledger ∧ ∃ l, w.ledgers[ledger]? = some l ∧ l.invocationId = s.invocation := by
  have hmap := (h.fits s hs).engaged ledger hled
  exact ⟨hmap, h.owner _ _ hmap⟩

theorem Bound.present (h : Bound w) (hs : s ∈ w.streams) (hway : s.stand.underWay = true) :
    ∀ gone ∈ w.evicted, gone.1 ≠ s.invocation := (h.fits s hs).present hway

/-- No stream is alive without a ledger. -/
theorem Bound.none_live (h : Bound w) (hnone : w.invocations[id]? = none) : w.liveStreams id = 0 := by
  unfold TeamWorld.liveStreams
  rw [List.countP_eq_zero]
  intro s hs hlive
  rw [Bool.and_eq_true, decide_eq_true_iff] at hlive
  obtain ⟨hlive, rfl⟩ := hlive
  obtain ⟨tracker, hhol⟩ := Stand.holds_of_live hlive
  obtain ⟨ledger, l, hmap, -, -⟩ := (h.fits s hs).holds tracker hhol
  rw [hnone] at hmap
  cases hmap

theorem Bound.make {call : LedgerCall} (h : Bound w) (hi : w.streams[i]? = some s) (hstd : s.stand = .insert call)
    (hnone : w.invocations[s.invocation]? = none) :
    Bound ((w.make s.invocation).stands i s (.found call w.ledgers.length)) := by
  have hs := List.mem_of_getElem? hi
  have hself : (w.make s.invocation).invocations[s.invocation]? = some w.ledgers.length :=
    Std.ExtTreeMap.getElem?_insert_self
  have hoth : ∀ {id : String}, id ≠ s.invocation → (w.make s.invocation).invocations[id]? = w.invocations[id]? :=
    fun hne => Dict.getElem?_insert_of_ne hne _
  have hold : ∀ {ledger : Nat} {l : TeamInvocation}, w.ledgers[ledger]? = some l →
      (w.make s.invocation).ledgers[ledger]? = some l := by
    intro ledger l hl
    show (w.ledgers ++ [_])[ledger]? = some l
    rw [List.getElem?_append_left (List.getElem?_eq_some_iff.mp hl).1]
    exact hl
  have hnew : (w.make s.invocation).ledgers[w.ledgers.length]? = some { invocationId := s.invocation } := by
    show (w.ledgers ++ [_])[w.ledgers.length]? = _
    rw [List.getElem?_append_right (Nat.le_refl _), Nat.sub_self]
    rfl
  have hpresent := h.present hs (by rw [hstd]; rfl)
  have hnotHolds : call.holds = none := by
    cases hhol : call.holds with
    | none => rfl
    | some tracker =>
      obtain ⟨ledger, l, hmap, -, -⟩ := (h.fits s hs).holds tracker (by rw [hstd]; exact hhol)
      rw [hnone] at hmap
      cases hmap
  have hcnt : ∀ id, ((w.make s.invocation).stands i s (.found call w.ledgers.length)).liveStreams id =
      w.liveStreams id := by
    intro id
    have hset := @liveStreams_set w ((w.make s.invocation).stands i s (.found call w.ledgers.length)) i s
      (.found call w.ledgers.length) hi rfl id
    rw [hstd] at hset
    exact Nat.add_right_cancel hset
  refine ⟨fun id ledger hid => ?_, fun s' hs' => ?_, fun id ledger l hid hl => ?_, fun gone hgone => ?_⟩
  · by_cases hsame : id = s.invocation
    · subst hsame
      obtain rfl := Option.some.inj (hself.symm.trans hid)
      exact ⟨_, hnew, rfl⟩
    · obtain ⟨l, hl, howr⟩ := h.owner id ledger ((hoth hsame).symm.trans hid)
      exact ⟨l, hold hl, howr⟩
  · rcases List.mem_or_eq_of_mem_set hs' with hs' | rfl
    · have hbef := h.fits s' hs'
      refine ⟨fun tracker hhol => ?_, fun ledger hled => ?_, hbef.consistent, fun ledger hled => ?_,
        hbef.present⟩
      · obtain ⟨ledger, l, hid, hl, htrk⟩ := hbef.holds tracker hhol
        have hne : s'.invocation ≠ s.invocation := by
          intro heq
          rw [heq, hnone] at hid
          cases hid
        exact ⟨ledger, l, (hoth hne).trans hid, hold hl, htrk⟩
      · have hid := hbef.engaged ledger hled
        have hne : s'.invocation ≠ s.invocation := by
          intro heq
          rw [heq, hnone] at hid
          cases hid
        exact (hoth hne).trans hid
      · obtain ⟨l, hl, howr⟩ := hbef.parting ledger hled
        exact ⟨l, hold hl, howr⟩
    · refine ⟨fun tracker hhol => ?_, fun ledger hled => ?_, trivial,
        fun ledger hled => (by cases hled), fun _ => hpresent⟩
      · rw [show (Stand.found call w.ledgers.length).holds = call.holds from rfl, hnotHolds] at hhol
        cases hhol
      · obtain rfl := Option.some.inj hled
        exact hself
  · rw [hcnt]
    by_cases hsame : id = s.invocation
    · subst hsame
      obtain rfl := Option.some.inj (hself.symm.trans hid)
      obtain rfl := Option.some.inj (hnew.symm.trans hl)
      exact (h.none_live hnone).symm
    · have hid : w.invocations[id]? = some ledger := (hoth hsame).symm.trans hid
      obtain ⟨found, hfnd, -⟩ := h.owner id ledger hid
      obtain rfl := Option.some.inj ((hold hfnd).symm.trans hl)
      exact h.active id ledger _ hid hfnd
  · obtain ⟨hgoneNone, l, hl, hrest⟩ := h.gone gone hgone
    exact ⟨(hoth (hpresent gone hgone)).trans hgoneNone, l, hold hl, hrest⟩

theorem Bound.congr (h : Bound w) (hmap : w'.invocations = w.invocations) (hleds : w'.ledgers = w.ledgers)
    (hstrs : w'.streams = w.streams) (hevict : w'.evicted = w.evicted) : Bound w' := by
  refine ⟨?_, fun s hs => ?_, fun id ledger l => ?_, ?_⟩
  · rw [hmap, hleds]
    exact h.owner
  · rw [hstrs] at hs
    obtain ⟨hhol, heng, hcons, hpart, hpresent⟩ := h.fits s hs
    exact ⟨by rw [hmap, hleds]; exact hhol, by rw [hmap]; exact heng, hcons,
      by rw [hleds]; exact hpart, by rw [hevict]; exact hpresent⟩
  · unfold TeamWorld.liveStreams
    rw [hmap, hleds, hstrs]
    exact h.active id ledger l
  · rw [hmap, hleds, hevict]
    exact h.gone

theorem Bound.start (h : Bound w) (hfr : ∀ gone ∈ w.evicted, gone.1 ≠ id) :
    Bound { w with streams := w.streams ++ [⟨id, .lookup .budgetTracker⟩] } := by
  refine ⟨h.owner, fun s hs => ?_, fun id' ledger l hid hl => ?_, h.gone⟩
  · rcases List.mem_append.mp hs with hs | hs
    · obtain ⟨hhol, heng, hcons, hpart, hpresent⟩ := h.fits s hs
      exact ⟨hhol, heng, hcons, hpart, hpresent⟩
    · rw [List.mem_singleton.mp hs]
      exact ⟨fun _ h => (by cases h), fun _ h => (by cases h), trivial, fun _ h => (by cases h), fun _ => hfr⟩
  · have hcnt : TeamWorld.liveStreams { w with streams := w.streams ++ [⟨id, .lookup .budgetTracker⟩] } id' =
        w.liveStreams id' := by
      unfold TeamWorld.liveStreams
      rw [List.countP_append]
      rfl
    rw [hcnt]
    exact h.active id' ledger l hid hl

theorem Bound.evict {rest : List String} (h : Bound w)
    (hstarting : w.idleLedger id ≠ none → ∀ s ∈ w.streams, s.invocation = id → s.stand.starting = false) :
    Bound (w.evict id rest) := by
  unfold TeamWorld.evict
  cases hidle : w.idleLedger id with
  | none => exact h.congr rfl rfl rfl rfl
  | some ledger =>
    have hstarting := hstarting (by rw [hidle]; exact Option.some_ne_none _)
    obtain ⟨hmap, hled⟩ : w.invocations[id]? = some ledger ∧ (w.ledgers[ledger]?.any (·.isIdle)) = true :=
      Option.filter_eq_some_iff.mp hidle
    obtain ⟨l, hl, howr⟩ := h.owner id ledger hmap
    rw [hl, Option.any_some] at hled
    obtain ⟨hact, hqt⟩ : l.activeStreams = 0 ∧ l.snapshot.hasRunningEdges = false := by
      simpa [TeamInvocation.isIdle] using hled
    have hcnt : w.liveStreams id = 0 := (h.active id ledger l hmap hl).symm.trans hact
    -- No stream of the invocation is under way: it would be starting, or alive and counted.
    have hover : ∀ s ∈ w.streams, s.invocation = id → s.stand.underWay = false := by
      intro s hs hid
      have hnotLive : s.stand.live = false := by
        have := (List.countP_eq_zero.mp hcnt) s hs
        simpa [hid] using this
      have := hstarting s hs hid
      unfold Stand.starting at this
      rw [hnotLive] at this
      simpa using this
    have hoth : ∀ {id' : String}, id' ≠ id → (w.invocations.erase id)[id']? = w.invocations[id']? :=
      fun hne => Dict.getElem?_erase_of_ne hne
    have hself : (w.invocations.erase id)[id]? = none := Std.ExtTreeMap.getElem?_erase_self
    have hne : ∀ {id' : String} {ledger' : Nat}, (w.invocations.erase id)[id']? = some ledger' → id' ≠ id := by
      rintro id' ledger' hid rfl
      rw [hself] at hid
      cases hid
    have hholdsWay : ∀ stand : Stand, stand.holds ≠ none → stand.underWay = true := by
      intro stand hhol
      cases stand <;> first | rfl | exact absurd rfl hhol
    refine ⟨fun id' ledger' hid => h.owner id' ledger' ((hoth (hne hid)).symm.trans hid), fun s hs => ?_,
      fun id' ledger' l' hid hl' => h.active id' ledger' l' ((hoth (hne hid)).symm.trans hid) hl', fun gone hgone => ?_⟩
    · obtain ⟨hhol, heng, hcons, hpart, hpresent⟩ := h.fits s hs
      refine ⟨fun tracker htrk => ?_, fun ledger' hled' => ?_, hcons, hpart, fun hway gone hgone => ?_⟩
      · obtain ⟨ledger', l', hid, hrest⟩ := hhol tracker htrk
        refine ⟨ledger', l', (hoth fun heq => ?_).trans hid, hrest⟩
        have := hholdsWay s.stand (by rw [htrk]; exact Option.some_ne_none _)
        rw [hover s hs heq] at this
        cases this
      · refine (hoth fun heq => ?_).trans (heng ledger' hled')
        have hway : s.stand.underWay = true := by
          cases hstd : s.stand <;> first | rfl | (rw [hstd] at hled'; cases hled')
        rw [hover s hs heq] at hway
        cases hway
      · rcases List.mem_append.mp hgone with hgone | hgone
        · exact hpresent hway gone hgone
        · rw [List.mem_singleton.mp hgone]
          intro heq
          rw [hover s hs heq.symm] at hway
          cases hway
    · rcases List.mem_append.mp hgone with hgone | hgone
      · obtain ⟨hnone, hrest⟩ := h.gone gone hgone
        refine ⟨?_, hrest⟩
        by_cases hsame : gone.1 = id
        · rw [hsame]
          exact hself
        · exact (hoth hsame).trans hnone
      · rw [List.mem_singleton.mp hgone]
        exact ⟨hself, l, hl, howr, hqt⟩

/-! ## Steps -/

theorem trackerFor_spec (hl : w.ledgers[ledger]? = some l) : ∃ trackers, w.trackerFor ledger l =
    ((w.trackerFor ledger l).1, { w.put ledger { l with tracker := some (w.trackerFor ledger l).1 } with trackers }) ∧
      ∀ tracker, l.tracker = some tracker → (w.trackerFor ledger l).1 = tracker := by
  unfold TeamWorld.trackerFor
  cases htrk : l.tracker with
  | none => exact ⟨_, rfl, fun tracker h => by cases h⟩
  | some tracker =>
    refine ⟨w.trackers, ?_, fun other h => Option.some.inj h⟩
    obtain ⟨hlt, rfl⟩ := List.getElem?_eq_some_iff.mp hl
    dsimp only [TeamWorld.put]
    rw [← htrk, List.set_getElem_self hlt]

/-- A stream under way goes on, with its ledger changed. -/
theorem Bound.onLedger (h : Bound w) (hi : w.streams[i]? = some s) (heng : s.stand.engaged = some ledger)
    (hl : w.ledgers[ledger]? = some l) (hstrs : w'.streams = w.streams.set i { s with stand := stand' })
    (hmap : w'.invocations = w.invocations) (hevict : w'.evicted = w.evicted)
    (hleds : w'.ledgers = w.ledgers.set ledger l') (hid : l'.invocationId = l.invocationId)
    (htrk : ∀ tracker, l.tracker = some tracker → l'.tracker = some tracker)
    (hact : l'.activeStreams + (if s.stand.live then 1 else 0) = l.activeStreams + (if stand'.live then 1 else 0))
    (hhol : ∀ tracker, stand'.holds = some tracker → s.stand.holds = some tracker ∨ l'.tracker = some tracker)
    (hnext : ∀ next, stand'.engaged = some next → next = ledger) (hcons : stand'.Consistent)
    (hpart : ∀ next, stand'.parting = some next → next = ledger) : Bound w' := by
  have hs := List.mem_of_getElem? hi
  obtain ⟨hled, found, hfnd, howr⟩ := h.engaged hs heng
  obtain rfl := Option.some.inj (hfnd.symm.trans hl)
  have hway : s.stand.underWay = true := by
    cases hstd : s.stand <;> first | rfl | (rw [hstd] at heng; cases heng)
  have hself : w'.ledgers[ledger]? = some l' := by
    rw [hleds, List.getElem?_set_self (List.getElem?_eq_some_iff.mp hl).1]
  refine h.put hi hl howr hstrs hmap hevict hleds hid (fun tracker ht => .inl (htrk tracker ht)) hact
    (.inl hled) (fun hnot => by rw [hway] at hnot; cases hnot) ⟨fun tracker ht => ?_, fun next hn => ?_, hcons,
    fun next hn => ?_, fun _ => by rw [hevict]; exact h.present hs hway⟩
  · refine ⟨ledger, l', by rw [hmap, hled], hself, ?_⟩
    rcases hhol tracker ht with hbef | haft
    · obtain ⟨ledger', own, hmap', hown, hkept⟩ := (h.fits s hs).holds tracker hbef
      obtain rfl := Option.some.inj (hled.symm.trans hmap')
      obtain rfl := Option.some.inj (hl.symm.trans hown)
      exact htrk tracker hkept
    · exact haft
  · rw [hmap, hnext next hn, hled]
  · rw [hpart next hn]
    exact ⟨l', hself, hid.trans howr⟩

theorem Bound.withLedger {call : LedgerCall} (h : Bound w) (hi : w.streams[i]? = some s)
    (hstd : s.stand = .found call ledger) (hl : w.ledgers[ledger]? = some l) :
    Bound (w.withLedger budget i s ledger l call) := by
  have heng : s.stand.engaged = some ledger := by
    rw [hstd]
    rfl
  have hhol : s.stand.holds = call.holds := by
    rw [hstd]
    rfl
  have hlive : s.stand.live = call.entered := by
    rw [hstd]
    rfl
  have htrack : ∀ {stand' : Stand}, stand'.live = call.entered →
      (∀ tracker, stand'.holds = some tracker → call.holds = some tracker ∨ (w.trackerFor ledger l).1 = tracker) →
      (∀ next, stand'.engaged = some next → next = ledger) → stand'.Consistent →
      (∀ next, stand'.parting = some next → next = ledger) →
      Bound ((w.trackerFor ledger l).2.stands i s stand') := by
    intro stand' hlive' hhol' hnext hcons hpart
    obtain ⟨trackers, hspec, hsame⟩ := trackerFor_spec hl
    rw [hspec]
    refine h.onLedger hi heng hl rfl rfl rfl rfl rfl
      (fun tracker htrk => by rw [hsame tracker htrk]) (by rw [hlive, hlive']) (fun tracker ht => ?_) hnext hcons
      hpart
    rw [hhol]
    exact (hhol' tracker ht).imp_right fun heq => by rw [heq]
  have hsnap : ∀ {w' : TeamWorld} {snapshot : TeamExecutionSnapshot} {tracker : Nat} {entered : Bool},
      call.holds = some tracker → call.entered = entered → w'.ledgers = w.ledgers.set ledger { l with snapshot } →
      w'.streams = w.streams → w'.invocations = w.invocations → w'.evicted = w.evicted →
      Bound (w'.stands i s (.resting tracker entered)) := by
    intro w' snapshot tracker entered hcall hentered hleds hstrs hmap hevict
    have hset : (w'.stands i s (.resting tracker entered)).streams =
        w.streams.set i { s with stand := .resting tracker entered } := by
      rw [← hstrs]
      rfl
    refine h.onLedger hi heng hl hset hmap hevict hleds rfl (fun _ ht => ht)
      (by rw [hlive, hentered]; rfl) (fun other ht => .inl ?_) (fun _ hn => by cases hn) trivial (fun _ hn => by cases hn)
    rw [hhol, hcall]
    exact ht
  cases call with
  | budgetTracker =>
    exact htrack rfl (fun tracker ht => .inr (Option.some.inj ht)) (fun _ hn => by cases hn) trivial
      (fun _ hn => by cases hn)
  | enter tracker =>
    refine h.onLedger hi heng hl rfl rfl rfl rfl rfl (fun _ ht => ht) ?_ (fun other ht => .inl ?_)
      (fun _ hn => by cases hn) trivial (fun _ hn => by cases hn)
    · rw [hlive]
      rfl
    · rw [hhol]
      exact ht
  | push tracker entered start => exact hsnap rfl rfl rfl rfl rfl rfl
  | use tracker entered call =>
    have hchecks : ∀ next, (Stand.tracked tracker entered call ledger (some (w.trackerFor ledger l).1)).engaged =
        some next → next = ledger := fun next hn => (Option.some.inj hn).symm
    obtain ⟨found, own, hmap, hown, hkept⟩ := (h.fits s (List.mem_of_getElem? hi)).holds tracker hhol
    obtain rfl := Option.some.inj ((h.engaged (List.mem_of_getElem? hi) heng).1.symm.trans hmap)
    obtain rfl := Option.some.inj (hl.symm.trans hown)
    obtain ⟨-, -, hsame⟩ := trackerFor_spec hl
    have htracked : Bound ((w.trackerFor ledger l).2.stands i s
        (.tracked tracker entered call ledger (some (w.trackerFor ledger l).1))) := by
      refine htrack rfl (fun _ ht => .inl ht) hchecks ?_ (fun _ hn => by cases hn)
      exact congrArg some (hsame tracker hkept)
    cases call with
    | checkBudget => exact htracked
    | startEdge start => exact htracked
    | recordEvent event => exact htracked
    | finishEdge id error => exact hsnap rfl rfl rfl rfl rfl rfl
    | snapshot =>
      refine h.move hi rfl rfl rfl rfl (by rw [hlive]; rfl) ((h.fits s (List.mem_of_getElem? hi)).next rfl rfl rfl
        (fun other ht => ?_) (fun next hn => ?_) hkept (fun _ hn => by cases hn) fun _ => ?_)
      · rw [hhol]
        exact ht
      · obtain rfl := Option.some.inj hn
        exact hmap
      · rw [hstd]
        rfl

theorem Bound.withReceipt {tracker : Nat} {entered : Bool} {call : TeamCall} {exceeded : Option String}
    {asked : Option Nat} {snapshot : TeamExecutionSnapshot} (h : Bound w) (hi : w.streams[i]? = some s)
    (hstd : s.stand = .tracked tracker entered call ledger asked) (hl : w.ledgers[ledger]? = some l) :
    Bound (w.withReceipt budget i s tracker entered ledger l exceeded snapshot call) := by
  have hrec : ∀ {snapshot : TeamExecutionSnapshot} {stand' : Stand},
      stand' = .resting tracker entered ∨ (∃ start, stand' = .lookup (.push tracker entered start)) →
      Bound ((w.put ledger { l with snapshot }).stands i s stand') := by
    intro snapshot stand' hstd'
    have hnext : stand'.holds = some tracker ∧ stand'.live = entered ∧ stand'.engaged = none ∧ stand'.parting = none ∧
        stand'.Consistent := by
      rcases hstd' with rfl | ⟨start, rfl⟩
      · exact ⟨rfl, rfl, rfl, rfl, trivial⟩
      · exact ⟨rfl, rfl, rfl, rfl, trivial⟩
    obtain ⟨hhol, hlive, heng, hpart, hcons⟩ := hnext
    refine h.onLedger hi (by rw [hstd]; rfl) hl rfl rfl rfl rfl rfl (fun _ ht => ht) ?_ (fun other ht => .inl ?_)
      (fun next hn => ?_) hcons (fun next hn => ?_)
    · rw [hlive, hstd]
      rfl
    · rw [hstd]
      exact hhol.symm.trans ht
    · rw [heng] at hn
      cases hn
    · rw [hpart] at hn
      cases hn
  cases call with
  | checkBudget => exact hrec (.inl rfl)
  | startEdge start =>
    dsimp only [TeamWorld.withReceipt]
    split
    next => exact hrec (.inr ⟨start, rfl⟩)
    next => exact hrec (.inl rfl)
  | recordEvent event => exact hrec (.inl rfl)
  | finishEdge id error => exact hrec (.inl rfl)
  | snapshot => exact hrec (.inl rfl)

/-- Before a step: a stream that starts is of an invocation whose receipt was not evicted; no stream holds the tracker
that is taken away; and no stream is starting with the invocation whose receipt is to be evicted. -/
def Careful (w : TeamWorld) : TeamMove → Prop
  | .start invocation => ∀ gone ∈ w.evicted, gone.1 ≠ invocation
  | .lock i _ => ∀ s, w.streams[i]? = some s →
    (∀ ledger, s.stand = .taking ledger → ∀ s' ∈ w.streams, s'.invocation = s.invocation → s'.stand.holds = none) ∧
    (s.stand = .evicting → ∀ id rest, w.finished = id :: rest → retainedFinishedInvocations < w.finished.length →
      w.idleLedger id ≠ none → ∀ s' ∈ w.streams, s'.invocation = id → s'.stand.starting = false)
  | _ => True

theorem Bound.goOn (h : Bound w) (hi : w.streams[i]? = some s) (hway : s.stand.underWay = true)
    (hhol : stand'.holds = s.stand.holds) (hlive : stand'.live = s.stand.live)
    (heng : ∀ next, stand'.engaged = some next → w.invocations[s.invocation]? = some next)
    (hcons : stand'.Consistent) (hpart : stand'.parting = none) : Bound (w.stands i s stand') := by
  refine h.move hi rfl rfl rfl rfl hlive ((h.fits s (List.mem_of_getElem? hi)).next rfl rfl rfl (fun tracker ht => ?_)
    heng hcons (fun next hn => ?_) fun _ => hway)
  · rw [← hhol]
    exact ht
  · rw [hpart] at hn
    cases hn

theorem Bound.part (h : Bound w) (hi : w.streams[i]? = some s) (hl : w.ledgers[ledger]? = some l)
    (howr : l.invocationId = s.invocation) (hstrs : w'.streams = w.streams.set i { s with stand := stand' })
    (hmap : w'.invocations = w.invocations) (hevict : w'.evicted = w.evicted)
    (hleds : w'.ledgers = w.ledgers.set ledger l') (hid : l'.invocationId = l.invocationId)
    (htrk : ∀ tracker, l.tracker = some tracker → l'.tracker = some tracker ∨
      ∀ (j : Nat) (s' : TeamStream), w.streams[j]? = some s' → j ≠ i → s'.invocation = s.invocation →
        s'.stand.holds = none)
    (hact : l'.activeStreams = l.activeStreams) (hqt : l'.snapshot.edges = l.snapshot.edges)
    (hbef : s.stand.live = false) (haft : stand'.underWay = false)
    (hpart : ∀ next, stand'.parting = some next → next = ledger) : Bound w' := by
  have hnext : stand'.holds = none ∧ stand'.live = false ∧ stand'.engaged = none ∧ stand'.Consistent := by
    cases stand' <;> first | exact ⟨rfl, rfl, rfl, trivial⟩ | cases haft
  obtain ⟨hhol, hlive, heng, hcons⟩ := hnext
  refine h.put hi hl howr hstrs hmap hevict hleds hid htrk (by rw [hact, hbef, hlive])
    (.inr (hlive.trans hbef.symm)) (fun _ => hqt) ⟨fun _ ht => ?_, fun _ hn => ?_, hcons, fun next hn => ?_,
    fun hway => ?_⟩
  · rw [hhol] at ht
    cases ht
  · rw [heng] at hn
    cases hn
  · rw [hpart next hn]
    exact ⟨l', by rw [hleds, List.getElem?_set_self (List.getElem?_eq_some_iff.mp hl).1], hid.trans howr⟩
  · rw [haft] at hway
    cases hway

/-- A stream that has left needs no ledger any more. -/
theorem Bound.finish (h : Bound w) (hi : w.streams[i]? = some s)
    (hstrs : w'.streams = w.streams.set i { s with stand := stand' }) (hmap : w'.invocations = w.invocations)
    (hevict : w'.evicted = w.evicted) (hleds : w'.ledgers = w.ledgers) (hbef : s.stand.live = false)
    (haft : stand'.underWay = false) (hpart : stand'.parting = none) : Bound w' := by
  have hnext : stand'.holds = none ∧ stand'.live = false ∧ stand'.engaged = none ∧ stand'.Consistent := by
    cases stand' <;> first | exact ⟨rfl, rfl, rfl, trivial⟩ | cases haft
  obtain ⟨hhol, hlive, heng, hcons⟩ := hnext
  refine h.move hi hstrs hmap hevict hleds (hlive.trans hbef.symm) ⟨fun _ ht => ?_, fun _ hn => ?_, hcons,
    fun _ hn => ?_, fun hway => ?_⟩
  · rw [hhol] at ht
    cases ht
  · rw [heng] at hn
    cases hn
  · rw [hpart] at hn
    cases hn
  · rw [haft] at hway
    cases hway

theorem Bound.leave (h : Bound w) (hi : w.streams[i]? = some s) {tracker : Nat} (hstd : s.stand = .exiting tracker ledger)
    (hl : w.ledgers[ledger]? = some l) (hstd' : stand' = .finished ∨ stand' = .reading ledger) :
    Bound ((w.put ledger { l with activeStreams := l.activeStreams - 1 }).stands i s stand') := by
  have hs := List.mem_of_getElem? hi
  have heng : s.stand.engaged = some ledger := by
    rw [hstd]
    rfl
  have hpos : 0 < l.activeStreams := by
    rw [h.active _ ledger l (h.engaged hs heng).1 hl]
    exact List.countP_pos_iff.mpr ⟨s, hs, by rw [hstd]; simp [Stand.live]⟩
  have hnext : stand'.holds = none ∧ stand'.live = false ∧ stand'.engaged = none ∧ stand'.Consistent ∧
      ∀ next, stand'.parting = some next → next = ledger := by
    rcases hstd' with rfl | rfl
    · exact ⟨rfl, rfl, rfl, trivial, fun _ hn => by cases hn⟩
    · exact ⟨rfl, rfl, rfl, trivial, fun _ hn => (Option.some.inj hn).symm⟩
  obtain ⟨hhol, hlive, heng', hcons, hpart⟩ := hnext
  refine h.onLedger hi heng hl rfl rfl rfl rfl rfl (fun _ ht => ht) ?_ (fun tracker ht => ?_) (fun next hn => ?_)
    hcons hpart
  · rw [hlive, hstd]
    show l.activeStreams - 1 + 1 = l.activeStreams + 0
    omega
  · rw [hhol] at ht
    cases ht
  · rw [heng'] at hn
    cases hn

theorem edges_synced (w : TeamWorld) (l : TeamInvocation) (tracker : Option Nat) :
    (w.synced l tracker).edges = l.snapshot.edges := by
  unfold TeamWorld.synced
  cases w.usageOf tracker with
  | none => rfl
  | some usage => rfl

theorem Bound.lock {exceeded : Option String} (h : Bound w) (hi : w.streams[i]? = some s)
    (hcare : Careful w (.lock i exceeded)) (hstep : w.advance budget i s exceeded = some w') : Bound w' := by
  have hs := List.mem_of_getElem? hi
  have hfits := h.fits s hs
  obtain ⟨halone, hidle⟩ := hcare s hi
  unfold TeamWorld.advance at hstep
  cases hstd : s.stand with
  | lookup call =>
    rw [hstd] at hstep
    dsimp only at hstep
    split at hstep
    next ledger hmap =>
      obtain rfl := Option.some.inj hstep
      exact h.goOn hi (by rw [hstd]; rfl) (by rw [hstd]; rfl) (by rw [hstd]; rfl)
        (fun _ hn => Option.some.inj hn ▸ hmap) trivial rfl
    next hmap =>
      split at hstep
      next =>
        obtain rfl := Option.some.inj hstep
        exact h.goOn hi (by rw [hstd]; rfl) (by rw [hstd]; rfl) (by rw [hstd]; rfl) (fun _ hn => by cases hn)
          trivial rfl
      next =>
        obtain rfl := Option.some.inj hstep
        exact h.goOn hi (by rw [hstd]; rfl) (by rw [hstd]; rfl) (by rw [hstd]; rfl) (fun _ hn => by cases hn)
          trivial rfl
  | insert call =>
    rw [hstd] at hstep
    dsimp only at hstep
    split at hstep
    next ledger hmap =>
      obtain rfl := Option.some.inj hstep
      exact h.goOn hi (by rw [hstd]; rfl) (by rw [hstd]; rfl) (by rw [hstd]; rfl)
        (fun _ hn => Option.some.inj hn ▸ hmap) trivial rfl
    next hmap =>
      obtain rfl := Option.some.inj hstep
      exact h.make hi hstd hmap
  | found call ledger =>
    rw [hstd] at hstep
    obtain ⟨l, hl, rfl⟩ := Option.map_eq_some_iff.mp hstep
    exact h.withLedger hi hstd hl
  | tracked tracker entered call ledger checks =>
    rw [hstd] at hstep
    obtain ⟨l, hl, rfl⟩ := Option.map_eq_some_iff.mp hstep
    exact h.withReceipt hi hstd hl
  | resting tracker entered =>
    rw [hstd] at hstep
    cases hstep
  | leaving tracker =>
    rw [hstd] at hstep
    dsimp only at hstep
    split at hstep
    next ledger hmap =>
      obtain rfl := Option.some.inj hstep
      exact h.goOn hi (by rw [hstd]; rfl) (by rw [hstd]; rfl) (by rw [hstd]; rfl)
        (fun _ hn => Option.some.inj hn ▸ hmap) trivial rfl
    next hnone =>
      -- A stream that has not left is of an invocation in the map.
      obtain ⟨ledger, l, hmap, -, -⟩ := hfits.holds tracker (by rw [hstd]; rfl)
      rw [hnone] at hmap
      cases hmap
  | exiting tracker ledger =>
    rw [hstd] at hstep
    obtain ⟨l, hl, rfl⟩ := Option.map_eq_some_iff.mp hstep
    refine h.leave hi hstd hl ?_
    split
    next => exact .inl rfl
    next => exact .inr rfl
  | reading ledger =>
    rw [hstd] at hstep
    obtain ⟨l, hl, rfl⟩ := Option.map_eq_some_iff.mp hstep
    obtain ⟨own, hown, howr⟩ := hfits.parting ledger (by rw [hstd]; rfl)
    obtain rfl := Option.some.inj (hl.symm.trans hown)
    refine h.part hi hl howr rfl rfl rfl ?_ rfl (fun _ ht => .inl ht) rfl rfl (by rw [hstd]; rfl) rfl
      (fun _ hn => (Option.some.inj hn).symm)
    obtain ⟨hlt, rfl⟩ := List.getElem?_eq_some_iff.mp hl
    exact (List.set_getElem_self hlt).symm
  | syncing ledger tracker =>
    rw [hstd] at hstep
    obtain ⟨l, hl, rfl⟩ := Option.map_eq_some_iff.mp hstep
    obtain ⟨own, hown, howr⟩ := hfits.parting ledger (by rw [hstd]; rfl)
    obtain rfl := Option.some.inj (hl.symm.trans hown)
    exact h.part hi hl howr rfl rfl rfl rfl rfl (fun _ ht => .inl ht) rfl (edges_synced w l tracker)
      (by rw [hstd]; rfl) rfl (fun _ hn => (Option.some.inj hn).symm)
  | taking ledger =>
    rw [hstd] at hstep
    obtain ⟨l, hl, rfl⟩ := Option.map_eq_some_iff.mp hstep
    obtain ⟨own, hown, howr⟩ := hfits.parting ledger (by rw [hstd]; rfl)
    obtain rfl := Option.some.inj (hl.symm.trans hown)
    exact h.part hi hl howr rfl rfl rfl rfl rfl
      (fun _ _ => .inr fun j s' hj _ hsame => halone ledger hstd s' (List.mem_of_getElem? hj) hsame) rfl rfl
      (by rw [hstd]; rfl) rfl (fun _ hn => by cases hn)
  | retiring =>
    rw [hstd] at hstep
    dsimp only at hstep
    split at hstep
    next => cases hstep
    next =>
      obtain rfl := Option.some.inj hstep
      exact h.finish hi rfl rfl rfl rfl (by rw [hstd]; rfl) rfl rfl
  | evicting =>
    rw [hstd] at hstep
    dsimp only at hstep
    split at hstep
    next id rest hfin =>
      split at hstep
      next hlong =>
        obtain rfl := Option.some.inj hstep
        exact h.evict (hidle hstd id rest hfin hlong)
      next =>
        obtain rfl := Option.some.inj hstep
        exact h.finish hi rfl rfl rfl rfl (by rw [hstd]; rfl) rfl rfl
    next =>
      obtain rfl := Option.some.inj hstep
      exact h.finish hi rfl rfl rfl rfl (by rw [hstd]; rfl) rfl rfl
  | finished =>
    rw [hstd] at hstep
    cases hstep

theorem Bound.step {move : TeamMove} (h : Bound w) (hacts : Careful w move) (hstep : w.step budget move = some w') :
    Bound w' := by
  cases move with
  | start invocation =>
    obtain rfl := Option.some.inj hstep
    exact h.start hacts
  | call i call =>
    dsimp only [TeamWorld.step] at hstep
    split at hstep
    next invocation tracker entered hi =>
      obtain rfl := Option.some.inj hstep
      exact h.goOn hi rfl rfl rfl (fun _ hn => by cases hn) trivial rfl
    next => cases hstep
  | enter i =>
    dsimp only [TeamWorld.step] at hstep
    split at hstep
    next invocation tracker hi =>
      obtain rfl := Option.some.inj hstep
      exact h.goOn hi rfl rfl rfl (fun _ hn => by cases hn) trivial rfl
    next => cases hstep
  | abandon i =>
    dsimp only [TeamWorld.step] at hstep
    split at hstep
    next invocation tracker hi =>
      obtain rfl := Option.some.inj hstep
      exact h.finish hi rfl rfl rfl rfl rfl rfl rfl
    next => cases hstep
  | leave i =>
    dsimp only [TeamWorld.step] at hstep
    split at hstep
    next invocation tracker hi =>
      obtain rfl := Option.some.inj hstep
      exact h.goOn hi rfl rfl rfl (fun _ hn => by cases hn) trivial rfl
    next => cases hstep
  | lock i exceeded =>
    obtain ⟨s, hi, hadvance⟩ := Option.bind_eq_some_iff.mp hstep
    exact h.lock hi hacts hadvance
  | meter tracker usage =>
    obtain rfl := Option.some.inj hstep
    exact h.congr rfl rfl rfl rfl

end Team

end Adk
