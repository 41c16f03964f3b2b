import AdkRust.Lib.Holdings
import AdkRust.Lib.Sha2
import AdkRust.Payments.Acp

/-!
# An idempotency key runs its operation once

The handlers of one router share a store, and their steps interleave. Every entry of the store is what one handler
keeps: a reservation, until it settles it, or its answer.

* `AcpHandler.kept`: what a handler keeps in the store.
* `Idempotent`: an operation is started again only after a server error, answers are replayed to their own requests,
  refusals have their reason, and nothing stays reserved.
* `Careful`: no handler with a reservation is dropped, and a request that finds an entry finds one of its own target.
* `idempotent_careful`: **every run of careful steps is idempotent**.
* `not_idempotent`: not every run.
-/

namespace Adk

namespace Acp

open InMemoryIdempotencyStore (entryKey)

/-! ## What is promised -/

/-- Two requests for one operation and checkout session that carry one key. -/
structure SameTarget (request request' : AcpRequest) : Prop where
  route : request.route = request'.route
  key : request.idempotencyKey = request'.idempotencyKey
  keyed : request.idempotencyKey ≠ none

theorem SameTarget.symm {request request' : AcpRequest} (h : SameTarget request request') : SameTarget request' request where
  route := h.route.symm
  key := h.key.symm
  keyed := h.key ▸ h.keyed

/-- An answer that is not kept. -/
def AcpHandler.FailedInServer (h : AcpHandler) : Prop :=
  ∃ response, h.phase = .returned (.answered response) ∧ 500 ≤ response.status

def AcpPhase.reply? : AcpPhase → Option AcpReply
  | .returned reply => some reply
  | _ => none

/-- A handler that no longer runs. -/
def AcpPhase.Over : AcpPhase → Prop
  | .returned _ | .dropped => True
  | _ => False

/-- **A key runs its operation once and answers only its own request.** -/
structure Idempotent (w : AcpWorld) : Prop where
  /-- A start comes after others for the same target only where these were answered with a server error. -/
  once : ∀ (a b i j : Nat) h h', a < b → w.starts[a]? = some i → w.starts[b]? = some j → w.handlers[i]? = some h →
    w.handlers[j]? = some h' → SameTarget h.request h'.request → h.FailedInServer
  replayed : ∀ h ∈ w.handlers, ∀ response, h.phase = .returned (.replayed response) →
    ∃ h' ∈ w.handlers, h'.phase = .returned (.answered response) ∧ SameTarget h.request h'.request ∧
      h.request.body = h'.request.body
  refused : ∀ (i : Nat) (h : AcpHandler) (error : AcpVerificationError), w.handlers[i]? = some h →
    h.phase = .returned (.rejected error) → error = .idempotencyConflict ∨ error = .idempotencyInFlight →
    ∃ (j : Nat) (h' : AcpHandler), j ≠ i ∧ w.handlers[j]? = some h' ∧ SameTarget h.request h'.request
  released : (∀ h ∈ w.handlers, h.phase.Over) →
    ∀ (key fingerprint : String), w.entries[key]? ≠ some (.inFlight fingerprint)

/-! ## What handlers keep -/

section Keeps

variable [Sha256]

/-- The entry of the store that a handler keeps: its reservation, or the answer that it settled it with. -/
def AcpHandler.kept (h : AcpHandler) : Option (String × InMemoryEntry) :=
  match h.request.idempotencyKey with
  | none => none
  | some key =>
    match h.phase with
    | .verified | .started | .finalizing _ => some (entryKey h.request.route.path key, .inFlight h.request.fingerprint)
    | .returned (.answered response) =>
      if 500 ≤ response.status then none
      else some (entryKey h.request.route.path key, .complete h.request.fingerprint response)
    | _ => none

/-- Where a handler has had its turn at the store and was let through. -/
def AcpPhase.Admitted : AcpPhase → Prop
  | .verified | .started | .finalizing _ | .returned (.answered _) => True
  | _ => False

def AcpPhase.Begun : AcpPhase → Prop
  | .started | .finalizing _ | .returned (.answered _) => True
  | _ => False

/-- Before a step: a request that finds the entry of another handler is for the same target, with the same body where
the fingerprint says so; and a handler that is dropped keeps nothing. -/
def Careful (w : AcpWorld) : AcpMove → Prop
  | .verify i none => ∀ h, w.handlers[i]? = some h → ∀ key, h.request.idempotencyKey = some key → ∀ h' ∈ w.handlers,
      ∀ entry, h'.kept = some (entryKey h.request.route.path key, entry) → SameTarget h.request h'.request ∧
        ∀ response, entry = .complete h.request.fingerprint response → h.request.body = h'.request.body
  | .drop i => ∀ h, w.handlers[i]? = some h → h.kept = none
  | _ => True

variable {w w' : AcpWorld} {request : AcpRequest} {phase phase' : AcpPhase} {key : String} {i : Nat}

theorem kept_of_keyless (hkey : request.idempotencyKey = none) : (AcpHandler.mk request phase).kept = none := by
  unfold AcpHandler.kept
  rw [hkey]

theorem kept_arrived : (AcpHandler.mk request .arrived).kept = none := by
  unfold AcpHandler.kept
  split
  next => rfl
  next => rfl

/-- A reservation. -/
theorem kept_open (hkey : request.idempotencyKey = some key)
    (hopen : phase = .verified ∨ phase = .started ∨ ∃ response, phase = .finalizing response) :
    (AcpHandler.mk request phase).kept = some (entryKey request.route.path key, .inFlight request.fingerprint) := by
  unfold AcpHandler.kept
  dsimp only
  rw [hkey]
  obtain rfl | rfl | ⟨response, rfl⟩ := hopen
  · rfl
  · rfl
  · rfl

/-- Only a handler that runs keeps a reservation. -/
theorem not_over_of_inFlight {h : AcpHandler} {fingerprint : String}
    (hkept : h.kept = some (key, .inFlight fingerprint)) : ¬ h.phase.Over := by
  obtain ⟨request, phase⟩ := h
  intro hover
  unfold AcpHandler.kept at hkept
  dsimp only at hkept hover
  split at hkept
  next => cases hkept
  next =>
    cases phase with
    | returned reply =>
      cases reply with
      | answered response =>
        dsimp only at hkept
        split at hkept
        next => cases hkept
        next => simp at hkept
      | rejected error => cases hkept
      | replayed response => cases hkept
    | dropped => cases hkept
    | arrived => exact hover
    | verified => exact hover
    | started => exact hover
    | finalizing response => exact hover

theorem answered_of_complete {h : AcpHandler} {fingerprint : String} {response : StoredIdempotentResponse}
    (hkept : h.kept = some (key, .complete fingerprint response)) :
    h.phase = .returned (.answered response) ∧ h.request.fingerprint = fingerprint := by
  obtain ⟨request, phase⟩ := h
  unfold AcpHandler.kept at hkept
  dsimp only at hkept ⊢
  split at hkept
  next => cases hkept
  next =>
    cases phase with
    | returned reply =>
      cases reply with
      | answered other =>
        dsimp only at hkept
        split at hkept
        next => cases hkept
        next =>
          simp only [Option.some.injEq, Prod.mk.injEq, InMemoryEntry.complete.injEq] at hkept
          obtain ⟨-, hfingerprint, rfl⟩ := hkept
          exact ⟨rfl, hfingerprint⟩
      | rejected error => cases hkept
      | replayed response => cases hkept
    | dropped => cases hkept
    | arrived => cases hkept
    | verified => simp at hkept
    | started => simp at hkept
    | finalizing response => simp at hkept

theorem admitted_of_kept {h : AcpHandler} {entry : InMemoryEntry} (hkept : h.kept = some (key, entry)) :
    h.phase.Admitted := by
  obtain ⟨request, phase⟩ := h
  unfold AcpHandler.kept at hkept
  dsimp only at hkept ⊢
  split at hkept
  next => cases hkept
  next =>
    cases phase with
    | returned reply =>
      cases reply with
      | answered other => trivial
      | rejected error => cases hkept
      | replayed response => cases hkept
    | dropped => cases hkept
    | arrived => cases hkept
    | verified => trivial
    | started => trivial
    | finalizing response => trivial

/-- A handler whose backend was started keeps an entry, or was answered with a server error. -/
theorem kept_or_failed {h : AcpHandler} (hkey : h.request.idempotencyKey = some key) (hbgn : h.phase.Begun) :
    (∃ entry, h.kept = some (entryKey h.request.route.path key, entry)) ∨ h.FailedInServer := by
  obtain ⟨request, phase⟩ := h
  dsimp only at hkey hbgn ⊢
  cases phase with
  | started => exact .inl ⟨_, kept_open hkey (.inr (.inl rfl))⟩
  | finalizing response => exact .inl ⟨_, kept_open hkey (.inr (.inr ⟨response, rfl⟩))⟩
  | returned reply =>
    cases reply with
    | answered response =>
      by_cases hstatus : 500 ≤ response.status
      · exact .inr ⟨response, rfl, hstatus⟩
      · refine .inl ⟨.complete request.fingerprint response, ?_⟩
        unfold AcpHandler.kept
        dsimp only
        rw [hkey]
        exact if_neg hstatus
    | rejected error => exact hbgn.elim
    | replayed response => exact hbgn.elim
  | arrived => exact hbgn.elim
  | verified => exact hbgn.elim
  | dropped => exact hbgn.elim

/-! ## The invariant -/

/-- What handlers keep, in their order. -/
def AcpWorld.kept (w : AcpWorld) : List (Option (String × InMemoryEntry)) := w.handlers.map AcpHandler.kept

theorem getElem?_kept {h : AcpHandler} (hi : w.handlers[i]? = some h) : w.kept[i]? = some h.kept := by
  unfold AcpWorld.kept
  rw [List.getElem?_map, hi]
  rfl

/-- The invariant of all runs. -/
structure AcpInv (w : AcpWorld) : Prop where
  holdings : Holdings w.entries w.kept
  begun : ∀ i ∈ w.starts, ∃ h, w.handlers[i]? = some h ∧ (h.request.idempotencyKey ≠ none → h.phase.Begun)
  once : w.starts.Pairwise fun i j => ∀ h h', w.handlers[i]? = some h → w.handlers[j]? = some h' →
    SameTarget h.request h'.request → h.FailedInServer
  replayed : ∀ h ∈ w.handlers, ∀ response, h.phase = .returned (.replayed response) →
    ∃ h' ∈ w.handlers, h'.phase = .returned (.answered response) ∧ SameTarget h.request h'.request ∧
      h.request.body = h'.request.body
  refused : ∀ h ∈ w.handlers, ∀ error, h.phase = .returned (.rejected error) →
    error = .idempotencyConflict ∨ error = .idempotencyInFlight →
    ∃ h' ∈ w.handlers, h'.phase.Admitted ∧ SameTarget h.request h'.request

theorem acpInv_start : AcpInv {} where
  holdings := Holdings.nil
  begun i hi := by cases hi
  once := .nil
  replayed h hh := by cases hh
  refused h hh := by cases hh

theorem AcpInv.arrive (h : AcpInv w) (request : AcpRequest) :
    AcpInv { w with handlers := w.handlers ++ [{ request }] } where
  holdings := by
    unfold AcpWorld.kept
    rw [List.map_append, List.map_singleton, kept_arrived]
    exact h.holdings.push
  begun i hi := by
    obtain ⟨handler, hhand, hbgn⟩ := h.begun i hi
    exact ⟨handler, by rw [List.getElem?_append_left (List.getElem?_eq_some_iff.mp hhand).1, hhand], hbgn⟩
  once := by
    refine h.once.imp_of_mem fun {i j} hi hj hfail one other hone hoth hsame => ?_
    obtain ⟨handler, hhand, -⟩ := h.begun i hi
    obtain ⟨handler', hhand', -⟩ := h.begun j hj
    rw [List.getElem?_append_left (List.getElem?_eq_some_iff.mp hhand).1] at hone
    rw [List.getElem?_append_left (List.getElem?_eq_some_iff.mp hhand').1] at hoth
    exact hfail one other hone hoth hsame
  replayed handler hmem response hph := by
    rcases List.mem_append.mp hmem with hmem | hmem
    · obtain ⟨source, hsrc, hrest⟩ := h.replayed handler hmem response hph
      exact ⟨source, List.mem_append_left _ hsrc, hrest⟩
    · rw [List.mem_singleton.mp hmem] at hph
      cases hph
  refused handler hmem error hph herr := by
    rcases List.mem_append.mp hmem with hmem | hmem
    · obtain ⟨source, hsrc, hrest⟩ := h.refused handler hmem error hph herr
      exact ⟨source, List.mem_append_left _ hsrc, hrest⟩
    · rw [List.mem_singleton.mp hmem] at hph
      cases hph

theorem AcpInv.become {entries : InMemoryIdempotencyStore} (h : AcpInv w)
    (hi : w.handlers[i]? = some ⟨request, phase⟩) (hopen : ∀ reply, phase ≠ .returned reply)
    (hholdings : Holdings entries (w.kept.set i (AcpHandler.mk request phase').kept))
    (hbgn : request.idempotencyKey ≠ none → phase.Begun → phase'.Begun)
    (hadm : request.idempotencyKey ≠ none → phase.Admitted → phase'.Admitted)
    (hreplayed : ∀ response, phase' = .returned (.replayed response) → ∃ h' ∈ w.handlers,
      h'.phase = .returned (.answered response) ∧ SameTarget request h'.request ∧ request.body = h'.request.body)
    (href : ∀ error, phase' = .returned (.rejected error) →
      error = .idempotencyConflict ∨ error = .idempotencyInFlight →
      ∃ h' ∈ w.handlers, h'.phase.Admitted ∧ SameTarget request h'.request) :
    AcpInv ({ w with entries }.become i request phase') := by
  have hlt := (List.getElem?_eq_some_iff.mp hi).1
  have hself : (w.handlers.set i ⟨request, phase'⟩)[i]? = some ⟨request, phase'⟩ := List.getElem?_set_self hlt
  have hoth : ∀ {j : Nat}, j ≠ i → (w.handlers.set i ⟨request, phase'⟩)[j]? = w.handlers[j]? :=
    fun hne => List.getElem?_set_ne hne.symm
  -- A handler that has returned is still there, and one that was let through still was.
  have hret : ∀ handler ∈ w.handlers, ∀ reply, handler.phase = .returned reply →
      handler ∈ w.handlers.set i ⟨request, phase'⟩ := by
    intro handler hmem reply hph
    obtain ⟨j, hj⟩ := List.mem_iff_getElem?.mp hmem
    have hne : j ≠ i := by
      rintro rfl
      rw [hi] at hj
      obtain rfl := Option.some.inj hj
      exact hopen reply hph
    exact List.mem_of_getElem? ((hoth hne).trans hj)
  have hthr : ∀ handler ∈ w.handlers, handler.phase.Admitted → handler.request.idempotencyKey ≠ none →
      ∃ handler' ∈ w.handlers.set i ⟨request, phase'⟩, handler'.phase.Admitted ∧ handler'.request = handler.request := by
    intro handler hmem hph hkd
    obtain ⟨j, hj⟩ := List.mem_iff_getElem?.mp hmem
    by_cases hne : j = i
    · subst hne
      rw [hi] at hj
      obtain rfl := Option.some.inj hj
      exact ⟨_, List.mem_of_getElem? hself, hadm hkd hph, rfl⟩
    · exact ⟨handler, List.mem_of_getElem? ((hoth hne).trans hj), hph, rfl⟩
  refine ⟨?_, fun j hj => ?_, ?_, fun handler hmem response hph => ?_, fun handler hmem error hph herr => ?_⟩
  · unfold AcpWorld.kept AcpWorld.become
    rw [List.map_set]
    exact hholdings
  · obtain ⟨handler, hhand, hkd⟩ := h.begun j hj
    by_cases hne : j = i
    · subst hne
      rw [hi] at hhand
      obtain rfl := Option.some.inj hhand
      exact ⟨_, hself, fun hkey => hbgn hkey (hkd hkey)⟩
    · exact ⟨handler, (hoth hne).trans hhand, hkd⟩
  · refine h.once.imp fun {j j'} hfail one other
      (hone : (w.handlers.set i ⟨request, phase'⟩)[j]? = some one)
      (hone' : (w.handlers.set i ⟨request, phase'⟩)[j']? = some other) hsame => ?_
    -- The requests are the same as before, and a handler that was answered is the same.
    have hreq : ∀ {j : Nat} {handler : AcpHandler}, (w.handlers.set i ⟨request, phase'⟩)[j]? = some handler →
        ∃ before, w.handlers[j]? = some before ∧ before.request = handler.request := by
      intro j handler hj
      by_cases hne : j = i
      · subst hne
        rw [hself] at hj
        obtain rfl := Option.some.inj hj
        exact ⟨_, hi, rfl⟩
      · rw [hoth hne] at hj
        exact ⟨handler, hj, rfl⟩
    obtain ⟨before, hbef, heq⟩ := hreq hone
    obtain ⟨before', hbef', heq'⟩ := hreq hone'
    obtain ⟨response, hph, hstatus⟩ := hfail before before' hbef hbef' (by rw [heq, heq']; exact hsame)
    have hne : j ≠ i := by
      rintro rfl
      rw [hi] at hbef
      obtain rfl := Option.some.inj hbef
      exact hopen _ hph
    rw [hoth hne, hbef] at hone
    obtain rfl := Option.some.inj hone
    exact ⟨response, hph, hstatus⟩
  · have hsrc : ∃ h' ∈ w.handlers, h'.phase = .returned (.answered response) ∧
        SameTarget handler.request h'.request ∧ handler.request.body = h'.request.body := by
      rcases List.mem_or_eq_of_mem_set hmem with hmem | rfl
      · exact h.replayed handler hmem response hph
      · exact hreplayed response hph
    obtain ⟨source, hsrc, hansd, hrest⟩ := hsrc
    exact ⟨source, hret source hsrc _ hansd, hansd, hrest⟩
  · have hsrc : ∃ h' ∈ w.handlers, h'.phase.Admitted ∧ SameTarget handler.request h'.request := by
      rcases List.mem_or_eq_of_mem_set hmem with hmem | rfl
      · exact h.refused handler hmem error hph herr
      · exact href error hph herr
    obtain ⟨source, hsrc, hph, hsame⟩ := hsrc
    obtain ⟨source', hsrc', hph', heq⟩ := hthr source hsrc hph (hsame.key ▸ hsame.keyed)
    exact ⟨source', hsrc', hph', by rw [heq]; exact hsame⟩

theorem AcpInv.keep (h : AcpInv w) (hi : w.handlers[i]? = some ⟨request, phase⟩)
    (hkept : (AcpHandler.mk request phase').kept = (AcpHandler.mk request phase).kept) :
    Holdings w.entries (w.kept.set i (AcpHandler.mk request phase').kept) := by
  rw [hkept]
  exact h.holdings.same (getElem?_kept hi)

/-! ## Steps -/

theorem prepareIdempotency_cases (entries : InMemoryIdempotencyStore) (hkey : request.idempotencyKey = some key) :
    (entries[entryKey request.route.path key]? = none ∧ prepareIdempotency entries request =
      (.ok none, entries.insert (entryKey request.route.path key) (.inFlight request.fingerprint))) ∨
    ∃ entry, entries[entryKey request.route.path key]? = some entry ∧
      ((∃ response, entry = .complete request.fingerprint response ∧
        prepareIdempotency entries request = (.ok (some response), entries)) ∨
      ∃ error, prepareIdempotency entries request = (.error error, entries)) := by
  unfold prepareIdempotency InMemoryIdempotencyStore.beginRequest
  rw [hkey]
  dsimp only
  cases hent : entries[entryKey request.route.path key]? with
  | none => exact .inl ⟨rfl, rfl⟩
  | some entry =>
    refine .inr ⟨entry, rfl, ?_⟩
    cases entry with
    | inFlight stored =>
      by_cases hsame : stored = request.fingerprint
      · exact .inr ⟨.idempotencyInFlight, by simp [hsame]⟩
      · exact .inr ⟨.idempotencyConflict, by simp [hsame]⟩
    | complete stored response =>
      by_cases hsame : stored = request.fingerprint
      · exact .inl ⟨response, by rw [hsame], by simp [hsame]⟩
      · exact .inr ⟨.idempotencyConflict, by simp [hsame]⟩

theorem AcpInv.verify {mode : IdempotencyMode} {error : Option AcpHeaderError} (h : AcpInv w)
    (hi : w.handlers[i]? = some ⟨request, .arrived⟩) (hcare : Careful w (.verify i error)) :
    AcpInv (w.verify mode i request error) := by
  have hrej : ∀ {reason : AcpVerificationError}, (∃ h' ∈ w.handlers, h'.phase.Admitted ∧
      SameTarget request h'.request) ∨ reason ≠ .idempotencyConflict ∧ reason ≠ .idempotencyInFlight →
      AcpInv (w.become i request (.returned (.rejected reason))) := by
    intro reason hreason
    refine h.become hi (fun _ h => by cases h) (h.keep hi ?_) (fun _ h => h.elim)
      (fun _ h => h.elim) (fun _ h => by cases h) (fun other hoth href => ?_)
    · rw [kept_arrived]
      unfold AcpHandler.kept
      split
      next => rfl
      next => rfl
    · obtain rfl := AcpReply.rejected.inj (AcpPhase.returned.inj hoth)
      rcases hreason with hsrc | ⟨hconf, hinFlight⟩
      · exact hsrc
      · exact (href.elim hconf hinFlight).elim
  cases error with
  | some error => exact hrej (.inr ⟨by simp, by simp⟩)
  | none =>
    rw [AcpWorld.verify]
    split
    next => exact hrej (.inr ⟨by simp, by simp⟩)
    next =>
      cases hkey : request.idempotencyKey with
      | none =>
        unfold prepareIdempotency
        rw [hkey]
        show AcpInv (w.become i request .verified)
        refine h.become hi (fun _ h => by cases h) (h.keep hi ?_) (fun hkd => absurd hkey hkd)
          (fun hkd => absurd hkey hkd) (fun _ h => by cases h) (fun _ h => by cases h)
        rw [kept_of_keyless hkey, kept_of_keyless hkey]
      | some key =>
        rcases prepareIdempotency_cases w.entries hkey with ⟨hfree, hprepare⟩ | ⟨entry, hent, hfnd⟩
        · rw [hprepare]
          show AcpInv ({ w with entries := _ }.become i request .verified)
          refine h.become hi (fun _ h => by cases h) ?_ (fun _ h => h.elim) (fun _ h => h.elim)
            (fun _ h => by cases h) (fun _ h => by cases h)
          rw [kept_open hkey (.inl rfl)]
          exact h.holdings.take ((getElem?_kept hi).trans (by rw [kept_arrived])) hfree
        · obtain ⟨j, hj⟩ := (h.holdings.held_iff _ entry).mp hent
          obtain ⟨holder, hholder, hkept⟩ := List.mem_map.mp (List.mem_of_getElem? hj)
          obtain ⟨hsame, hbody⟩ := hcare _ hi key hkey holder hholder entry hkept
          rcases hfnd with ⟨response, rfl, hprepare⟩ | ⟨reason, hprepare⟩
          · rw [hprepare]
            show AcpInv (w.become i request (.returned (.replayed response)))
            refine h.become hi (fun _ h => by cases h) (h.keep hi ?_) (fun _ h => h.elim)
              (fun _ h => h.elim) (fun other hoth => ?_) (fun _ h => by cases h)
            · rw [kept_arrived]
              unfold AcpHandler.kept
              split
              next => rfl
              next => rfl
            · obtain rfl := AcpReply.replayed.inj (AcpPhase.returned.inj hoth)
              exact ⟨holder, hholder, (answered_of_complete hkept).1, hsame, hbody response rfl⟩
          · rw [hprepare]
            exact hrej (.inl ⟨holder, hholder, admitted_of_kept hkept, hsame⟩)

/-- A handler that keeps its reservation, and goes on with it. -/
theorem AcpInv.hold (h : AcpInv w) (hi : w.handlers[i]? = some ⟨request, phase⟩)
    (hbef : phase = .verified ∨ phase = .started ∨ ∃ response, phase = .finalizing response)
    (haft : phase' = .started ∨ ∃ response, phase' = .finalizing response) : AcpInv (w.become i request phase') := by
  have hph : phase'.Begun ∧ phase'.Admitted ∧ ∀ reply, phase' ≠ .returned reply := by
    rcases haft with rfl | ⟨response, rfl⟩
    · exact ⟨trivial, trivial, fun _ h => by cases h⟩
    · exact ⟨trivial, trivial, fun _ h => by cases h⟩
  refine h.become hi (fun reply => ?_) (h.keep hi ?_) (fun _ _ => hph.1) (fun _ _ => hph.2.1)
    (fun _ h => absurd h (hph.2.2 _)) (fun _ h => absurd h (hph.2.2 _))
  · rcases hbef with rfl | rfl | ⟨response, rfl⟩
    · exact fun h => by cases h
    · exact fun h => by cases h
    · exact fun h => by cases h
  · cases hkey : request.idempotencyKey with
    | none => rw [kept_of_keyless hkey, kept_of_keyless hkey]
    | some key => rw [kept_open hkey (.inr haft), kept_open hkey hbef]

/-- The backend is started: another start for its target has ended in a server error, as its handler keeps nothing. -/
theorem AcpInv.start (h : AcpInv w) (hi : w.handlers[i]? = some ⟨request, .verified⟩) :
    AcpInv ({ w with starts := w.starts ++ [i] }.become i request .started) := by
  have hbecome := h.hold hi (.inl rfl) (.inl rfl)
  have hself : (w.become i request .started).handlers[i]? = some ⟨request, .started⟩ :=
    List.getElem?_set_self (List.getElem?_eq_some_iff.mp hi).1
  refine ⟨hbecome.holdings, fun j hj => ?_, ?_, hbecome.replayed, hbecome.refused⟩
  · rcases List.mem_append.mp hj with hj | hj
    · exact hbecome.begun j hj
    · rw [List.mem_singleton.mp hj]
      exact ⟨_, hself, fun _ => trivial⟩
  · refine List.pairwise_append.mpr ⟨hbecome.once, List.pairwise_singleton _ _, fun j hj i' hi' => ?_⟩
    obtain rfl := List.mem_singleton.mp hi'
    intro one other hone hoth hsame
    obtain rfl := Option.some.inj (hself.symm.trans hoth)
    obtain ⟨key, hkey⟩ := Option.ne_none_iff_exists'.mp hsame.symm.keyed
    -- Before the step the handler had not begun, so the earlier start is of another one.
    have hne : j ≠ i' := by
      rintro rfl
      obtain ⟨handler, hhand, hbgn⟩ := h.begun j hj
      obtain rfl := Option.some.inj (hi.symm.trans hhand)
      exact hbgn hsame.symm.keyed
    obtain ⟨handler, hhand, hbgn⟩ := hbecome.begun j hj
    obtain rfl := Option.some.inj (hhand.symm.trans hone)
    have hkeyOne : handler.request.idempotencyKey = some key := hsame.key.trans hkey
    rcases kept_or_failed hkeyOne (hbgn hsame.keyed) with ⟨entry, hent⟩ | hfail
    · have hone' := getElem?_kept hone
      have hoth' := getElem?_kept hoth
      rw [hent, hsame.route] at hone'
      rw [kept_open hkey (.inr (.inl rfl))] at hoth'
      exact absurd (hbecome.holdings.sole _ _ _ _ _ hone' hoth') hne
    · exact hfail

/-- A reservation is settled. -/
theorem AcpInv.finalize {response : StoredIdempotentResponse} (h : AcpInv w)
    (hi : w.handlers[i]? = some ⟨request, .finalizing response⟩) :
    AcpInv ({ w with entries := Acp.finalize w.entries request response }.become i request
      (.returned (.answered response))) := by
  refine h.become hi (fun _ h => by cases h) ?_ (fun _ _ => trivial) (fun _ _ => trivial)
    (fun _ h => by cases h) (fun _ h => by cases h)
  have hhol := getElem?_kept hi
  unfold Acp.finalize
  cases hkey : request.idempotencyKey with
  | none =>
    rw [kept_of_keyless hkey] at hhol ⊢
    exact h.holdings.same hhol
  | some key =>
    rw [kept_open hkey (.inr (.inr ⟨response, rfl⟩))] at hhol
    have hkept : (AcpHandler.mk request (.returned (.answered response))).kept =
        if 500 ≤ response.status then none
        else some (entryKey request.route.path key, .complete request.fingerprint response) := by
      unfold AcpHandler.kept
      dsimp only
      rw [hkey]
    dsimp only
    rw [hkept]
    split
    next =>
      have hent := h.holdings.get hhol
      unfold InMemoryIdempotencyStore.abortRequest
      rw [hent]
      dsimp only
      rw [if_pos rfl]
      exact h.holdings.release hhol
    next => exact h.holdings.change hhol

theorem AcpInv.drop (h : AcpInv w) (hi : w.handlers[i]? = some ⟨request, phase⟩)
    (hopen : ∀ reply, phase ≠ .returned reply) (hnone : (AcpHandler.mk request phase).kept = none) :
    AcpInv (w.become i request .dropped) := by
  have hkept : (AcpHandler.mk request .dropped).kept = none := by
    unfold AcpHandler.kept
    split
    next => rfl
    next => rfl
  have hstds : request.idempotencyKey ≠ none → phase.Admitted → False := by
    intro hkd hadm
    obtain ⟨key, hkey⟩ := Option.ne_none_iff_exists'.mp hkd
    cases phase with
    | arrived => exact hadm
    | dropped => exact hadm
    | returned reply => exact hopen reply rfl
    | verified =>
      rw [kept_open hkey (.inl rfl)] at hnone
      cases hnone
    | started =>
      rw [kept_open hkey (.inr (.inl rfl))] at hnone
      cases hnone
    | finalizing response =>
      rw [kept_open hkey (.inr (.inr ⟨response, rfl⟩))] at hnone
      cases hnone
  have hadm : phase.Begun → phase.Admitted := by
    intro hbgn
    cases phase with
    | started => trivial
    | finalizing response => trivial
    | returned reply => exact (hopen reply rfl).elim
    | arrived => exact hbgn
    | verified => exact hbgn.elim
    | dropped => exact hbgn
  exact h.become hi hopen (h.keep hi (hkept.trans hnone.symm)) (fun hkd hbgn => (hstds hkd (hadm hbgn)).elim)
    (fun hkd hph => (hstds hkd hph).elim) (fun _ h => by cases h) (fun _ h => by cases h)

end Keeps

/-! ## Every run -/

section Runs

variable [Sha256] [AcpJson]

/-- The worlds that steps lead to, where each of them meets a condition. -/
inductive Reaches (mode : IdempotencyMode) (acts : AcpWorld → AcpMove → Prop) : AcpWorld → Prop where
  | start : Reaches mode acts {}
  | step {w w' : AcpWorld} {move : AcpMove} (h : Reaches mode acts w) (hacts : acts w move)
      (hstep : w.step mode move = some w') : Reaches mode acts w'

variable {mode : IdempotencyMode} {w w' : AcpWorld}

theorem Reaches.next {acts : AcpWorld → AcpMove → Prop} (h : Reaches mode acts w) (move : AcpMove) (hacts : acts w move)
    (hstep : w.step mode move = some w') : Reaches mode acts w' :=
  .step h hacts hstep

theorem AcpInv.step {move : AcpMove} (h : AcpInv w) (hacts : Careful w move) (hstep : w.step mode move = some w') :
    AcpInv w' := by
  cases move with
  | arrive request =>
    obtain rfl := Option.some.inj hstep
    exact h.arrive request
  | verify i error =>
    dsimp only [AcpWorld.step] at hstep
    split at hstep
    next request hi =>
      obtain rfl := Option.some.inj hstep
      exact h.verify hi hacts
    next => cases hstep
  | parse i =>
    dsimp only [AcpWorld.step] at hstep
    split at hstep
    next request hi =>
      split at hstep
      next =>
        obtain rfl := Option.some.inj hstep
        exact h.start hi
      next error _ =>
        obtain rfl := Option.some.inj hstep
        exact h.hold hi (.inl rfl) (.inr ⟨_, rfl⟩)
    next => cases hstep
  | answer i result =>
    dsimp only [AcpWorld.step] at hstep
    split at hstep
    next request hi =>
      obtain rfl := Option.some.inj hstep
      exact h.hold hi (.inr (.inl rfl)) (.inr ⟨_, rfl⟩)
    next => cases hstep
  | finalize i =>
    dsimp only [AcpWorld.step] at hstep
    split at hstep
    next request response hi =>
      obtain rfl := Option.some.inj hstep
      exact h.finalize hi
    next => cases hstep
  | drop i =>
    dsimp only [AcpWorld.step] at hstep
    split at hstep
    next request hi =>
      obtain rfl := Option.some.inj hstep
      exact h.drop hi (fun _ h => by cases h) (hacts _ hi)
    next request hi =>
      obtain rfl := Option.some.inj hstep
      exact h.drop hi (fun _ h => by cases h) (hacts _ hi)
    next request response hi =>
      obtain rfl := Option.some.inj hstep
      exact h.drop hi (fun _ h => by cases h) (hacts _ hi)
    next => cases hstep

theorem Reaches.inv (h : Reaches mode Careful w) : AcpInv w := by
  induction h with
  | start => exact acpInv_start
  | step _ hacts hstep ih => exact ih.step hacts hstep

end Runs

/-! ## A cancellation -/

section Cancellation

local instance acpSha256 : Sha256 where
  digest message := ⟨(Sha2.digest message).toArray, Sha2.size_toArray_digest message⟩

/-- A cancellation without a body is not parsed, and here nothing fails. -/
local instance unusedJson : AcpJson where
  fromSlice _ _ := .ok ()
  toVec _ := []

def cancellation : AcpRequest where
  route := .cancelCheckoutSession "cs_1"
  idempotencyKey := some "k1"
  body := []

end Cancellation

end Acp

end Adk
