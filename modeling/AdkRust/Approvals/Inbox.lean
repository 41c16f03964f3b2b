import AdkRust.Approvals.Request
import AdkRust.Lib.Text
import Mathlib.Data.List.Sort
import Mathlib.Data.String.Basic

/-!
# Inbox pages

The inbox of an approver, page by page (`approval.rs`, `governance.rs`). A page ends at a request and hands out a token
for its place; the token holds the request's creation time in microseconds.

* `RequestStore.listRequests`: the requests of a query, in order of creation time and id.
* `inbox`: one page, from batches of the store.
* `decode_encode`: a token is read back with its time cut to microseconds.
* `inbox_eq`: a page of what is left after its cursor.
* `coversExactly_iff`: **the pages cover the inbox exactly where each page ends at a request that was created on a whole
  microsecond.**
-/

namespace Adk

namespace Approvals

/-! ## Cursors -/

/-- A position in the listing order of requests: creation time, then id. -/
structure ApprovalCursor where
  createdAt : Utc
  id : String
deriving DecidableEq

namespace ApprovalCursor

/-- Whether `request` lists after this position. -/
def precedes (cursor : ApprovalCursor) (request : ApprovalRequest) : Bool :=
  cursor.createdAt < request.createdAt || cursor.createdAt = request.createdAt && cursor.id < request.id

/-- The page token of the position: the time in whole microseconds, and the id. -/
def encode (cursor : ApprovalCursor) : String :=
  String.ofList (intText (cursor.createdAt / 1000) ++ ':' :: cursor.id.toList)

/-- The moment of a number of microseconds, if there is one (`from_timestamp_micros`). -/
def fromTimestampMicros (micros : Int) : Option Utc :=
  if minUtc ≤ micros * 1000 ∧ micros * 1000 ≤ maxUtc then some (micros * 1000) else none

def malformed : AdkError where
  component := .agent
  category := .invalidInput
  code := "approval.invalid_cursor"
  message := "malformed approval page cursor"

/-- The position of a page token. -/
def decode (token : String) : Except AdkError ApprovalCursor :=
  match splitOnce [':'] token.toList with
  | none => .error malformed
  | some (micros, id) =>
    match (readI64 micros).bind fromTimestampMicros with
    | none => .error malformed
    | some createdAt => .ok { createdAt, id := String.ofList id }

/-- The position as its token tells it. -/
def rounded (cursor : ApprovalCursor) : ApprovalCursor :=
  { cursor with createdAt := cursor.createdAt / 1000 * 1000 }

/-- A token is read back with its time cut to microseconds. -/
theorem decode_encode (cursor : ApprovalCursor) (hmin : minUtc ≤ cursor.createdAt) (hmax : cursor.createdAt ≤ maxUtc) :
    decode cursor.encode = .ok cursor.rounded := by
  have hmin : (-8334601228800000000000 : Int) ≤ cursor.createdAt := hmin
  have hmax : (8210266876799999999999 : Int) ≥ cursor.createdAt := hmax
  have hflr : (-8334601228800000000000 : Int) ≤ cursor.createdAt / 1000 * 1000 ∧
      (8210266876799999999999 : Int) ≥ cursor.createdAt / 1000 * 1000 := by omega
  unfold decode encode
  rw [String.toList_ofList, splitOnce_append _ (not_mem_intText (by decide) (by decide))]
  dsimp only
  rw [readI64_intText (by omega) (by omega), Option.bind_some, fromTimestampMicros, if_pos]
  · dsimp only
    rw [String.ofList_toList]
    rfl
  · exact hflr

end ApprovalCursor

def ApprovalRequest.cursor (request : ApprovalRequest) : ApprovalCursor :=
  { createdAt := request.createdAt, id := request.id }

/-! ## The store -/

/-- The requests and delegations of a store. A request has its own id, and a creation time that is a moment. -/
structure RequestStore where
  requests : List ApprovalRequest
  delegations : Delegations := []
  ids : (requests.map (·.id)).Nodup
  times : ∀ request ∈ requests, minUtc ≤ request.createdAt ∧ request.createdAt ≤ maxUtc

/-- Selects stored requests. -/
structure ApprovalRequestQuery where
  states : List ApprovalState := []
  openOnly : Bool := false
  appName : Option String := none
  after : Option ApprovalCursor := none
  limit : Nat

/-- The most requests that are listed at once. -/
def defaultApprovalPage : Nat := 100

/-- Whether `request` matches every filter except the limit. -/
def ApprovalRequestQuery.selects (query : ApprovalRequestQuery) (request : ApprovalRequest) : Bool :=
  (query.states.isEmpty || query.states.contains request.state) && (!query.openOnly || request.isOpen) &&
    (query.appName.all fun app => app = request.scope.appName) &&
    query.after.all fun cursor => cursor.precedes request

/-- The listing order: creation time, then id. -/
def ListsBefore (a b : ApprovalRequest) : Prop :=
  a.createdAt < b.createdAt ∨ a.createdAt = b.createdAt ∧ a.id ≤ b.id

instance : DecidableRel ListsBefore := fun a b =>
  inferInstanceAs (Decidable (a.createdAt < b.createdAt ∨ a.createdAt = b.createdAt ∧ a.id ≤ b.id))

/-- The requests of a query, at most as many as it asks for (`list_requests`). -/
def RequestStore.listRequests (store : RequestStore) (query : ApprovalRequestQuery) : List ApprovalRequest :=
  ((store.requests.filter query.selects).insertionSort ListsBefore).take query.limit

/-! ## Pages -/

structure InboxQuery where
  approver : Option SubjectRef := none
  groups : List String := []
  states : List ApprovalState := []
  appName : Option String := none
  cursor : Option String := none
  limit : Nat := 50

structure InboxPage where
  /-- The requests, oldest first. -/
  items : List ApprovalRequest
  /-- The token for the next page, when there may be one. -/
  nextCursor : Option String

section Pages

variable (holds : ApprovalRequest → Bool) (limit : Nat)

/-- Goes through a batch: the page that it fills, or what there is so far and the last request seen. -/
def collect (items : List ApprovalRequest) (after : Option ApprovalCursor) :
    List ApprovalRequest → InboxPage ⊕ List ApprovalRequest × Option ApprovalCursor
  | [] => .inr (items, after)
  | request :: batch =>
    if holds request then
      if (items ++ [request]).length = limit then
        .inl { items := items ++ [request], nextCursor := some request.cursor.encode }
      else collect (items ++ [request]) (some request.cursor) batch
    else collect items (some request.cursor) batch

variable (store : RequestStore) (states : List ApprovalState) (appName : Option String)

/-- Goes through batches of the store until a page is full or the store has no more. -/
def fillPage : Nat → List ApprovalRequest → Option ApprovalCursor → Option InboxPage
  | 0, _, _ => none
  | fuel + 1, items, after =>
    let batch := store.listRequests { states, appName, after, limit := defaultApprovalPage }
    match collect holds limit items after batch with
    | .inl page => some page
    | .inr (items, after) =>
      if batch.length < defaultApprovalPage then some { items, nextCursor := none }
      else fillPage fuel items after

end Pages

namespace InboxQuery

variable (query : InboxQuery) (store : RequestStore) (now : Utc)

def listedStates : List ApprovalState := if query.states.isEmpty then [.pending] else query.states

def delegationsNow : List ApprovalDelegation :=
  match query.approver with
  | some approver => liveDelegations store.delegations approver now
  | none => []

def holds (request : ApprovalRequest) : Bool :=
  inInbox request query.approver query.groups (query.delegationsNow store now) now

def pageSize : Nat := max query.limit 1

end InboxQuery

def inbox (store : RequestStore) (now : Utc) (query : InboxQuery) : Except AdkError (Option InboxPage) :=
  let fill := fillPage (query.holds store now) query.pageSize store query.listedStates query.appName
    (store.requests.length + 1) []
  match query.cursor with
  | none => .ok (fill none)
  | some token =>
    match ApprovalCursor.decode token with
    | .error error => .error error
    | .ok after => .ok (fill (some after))

/-- The pages from a cursor on, where the clock reads `clock n` at page `n`: the last has no token, and each other is
followed from its token. -/
inductive Pages (store : RequestStore) (query : InboxQuery) (clock : Nat → Utc) :
    Nat → Option String → List InboxPage → Prop where
  | last {n : Nat} {cursor : Option String} {page : InboxPage} :
    inbox store (clock n) { query with cursor } = .ok (some page) → page.nextCursor = none →
      Pages store query clock n cursor [page]
  | next {n : Nat} {cursor : Option String} {page : InboxPage} {token : String} {pages : List InboxPage} :
    inbox store (clock n) { query with cursor } = .ok (some page) → page.nextCursor = some token →
      Pages store query clock (n + 1) (some token) pages → Pages store query clock n cursor (page :: pages)

/-- The requests of the selected states that the approver may see, in order of creation time and id. -/
def RequestStore.visible (store : RequestStore) (query : InboxQuery) (now : Utc) : List ApprovalRequest :=
  (store.requests.filter fun request => query.listedStates.contains request.state &&
    (query.appName.all fun app => app = request.scope.appName) && query.holds store now request).insertionSort ListsBefore

/-- The pages end, and list every request that the approver may see once and in order. -/
def CoversExactly (store : RequestStore) (query : InboxQuery) (clock : Nat → Utc) : Prop :=
  ∃ pages, Pages store query clock 0 none pages ∧ pages.flatMap (·.items) = store.visible query (clock 0)

def EndOnMicros (limit : Nat) (items : List ApprovalRequest) : Prop :=
  ∀ page request, items[(page + 1) * limit - 1]? = some request → request.createdAt % 1000 = 0

/-! ## The listing order -/

instance : Std.Total ListsBefore := ⟨fun a b => by
  unfold ListsBefore
  rcases String.le_total a.id b.id with h | h <;> grind⟩

instance : IsTrans ApprovalRequest ListsBefore := ⟨fun a b c hab hbc => by
  unfold ListsBefore at *
  have := fun h : a.id ≤ b.id => fun h' : b.id ≤ c.id => String.le_trans h h'
  grind⟩

variable {request : ApprovalRequest}

theorem precedes_iff {cursor : ApprovalCursor} : cursor.precedes request = true ↔
    cursor.createdAt < request.createdAt ∨ cursor.createdAt = request.createdAt ∧ cursor.id < request.id := by
  simp [ApprovalCursor.precedes]

theorem not_precedes_self (request : ApprovalRequest) : request.cursor.precedes request = false := by
  rw [Bool.eq_false_iff, ne_eq, precedes_iff]
  rintro (h | ⟨-, h⟩)
  · exact lt_irrefl _ h
  · exact lt_irrefl _ h

theorem precedes_trans {cursor : ApprovalCursor} {a b : ApprovalRequest} (ha : cursor.precedes a = true)
    (hb : a.cursor.precedes b = true) : cursor.precedes b = true := by
  rw [precedes_iff] at *
  rcases ha with ha | ⟨ha, hida⟩
  · rcases hb with hb | ⟨hb, -⟩
    · exact .inl (lt_trans ha hb)
    · exact .inl (hb ▸ ha)
  · rcases hb with hb | ⟨hb, hidb⟩
    · exact .inl (ha ▸ hb)
    · exact .inr ⟨ha.trans hb, lt_trans hida hidb⟩

theorem floor_lt {time : Int} : time / 1000 * 1000 < time ↔ time % 1000 ≠ 0 := by omega

theorem floor_eq {time : Int} (h : time % 1000 = 0) : time / 1000 * 1000 = time := by omega

theorem rounded_precedes_self :
    request.cursor.rounded.precedes request = true ↔ request.createdAt % 1000 ≠ 0 := by
  rw [precedes_iff]
  have hid : ¬ request.cursor.rounded.id < request.id := lt_irrefl _
  change request.createdAt / 1000 * 1000 < request.createdAt ∨ _ ↔ _
  constructor
  · rintro (h | ⟨-, h⟩)
    · exact floor_lt.mp h
    · exact absurd h hid
  · intro h
    exact .inl (floor_lt.mpr h)

theorem rounded_eq (h : request.createdAt % 1000 = 0) :
    request.cursor.rounded = request.cursor := by
  unfold ApprovalCursor.rounded ApprovalRequest.cursor
  dsimp only
  rw [floor_eq h]

/-- In order, without two of one position. -/
def Ordered (items : List ApprovalRequest) : Prop := items.Pairwise fun a b => a.cursor.precedes b = true

def leftAfter (after : Option ApprovalCursor) (items : List ApprovalRequest) : List ApprovalRequest :=
  items.filter fun request => after.all fun cursor => cursor.precedes request

@[simp] theorem leftAfter_none (items : List ApprovalRequest) : leftAfter none items = items := by simp [leftAfter]

theorem Ordered.leftAfter_suffix {items : List ApprovalRequest} (h : Ordered items) (after : Option ApprovalCursor) :
    leftAfter after items <:+ items := by
  induction items with
  | nil => exact List.suffix_rfl
  | cons request items ih =>
    obtain ⟨hfst, hrest⟩ := List.pairwise_cons.mp h
    unfold leftAfter at ih ⊢
    cases haft : after.all fun cursor => cursor.precedes request with
    | false =>
      rw [List.filter_cons_of_neg (by simp [haft])]
      exact (ih hrest).trans (List.suffix_cons ..)
    | true =>
      have hall : ∀ other ∈ request :: items, (after.all fun cursor => cursor.precedes other) = true := by
        intro other hoth
        rcases List.mem_cons.mp hoth with rfl | hoth
        · exact haft
        · cases after with
          | none => rfl
          | some cursor => exact precedes_trans haft (hfst other hoth)
      exact ⟨[], List.filter_eq_self.mpr hall⟩

theorem Ordered.leftAfter_cursor {before behind : List ApprovalRequest} (h : Ordered (before ++ request :: behind)) :
    leftAfter (some request.cursor) (before ++ request :: behind) = behind := by
  obtain ⟨-, hrest, hbef⟩ := List.pairwise_append.mp h
  obtain ⟨hbehind, -⟩ := List.pairwise_cons.mp hrest
  have hnone : leftAfter (some request.cursor) before = [] := by
    refine List.filter_eq_nil_iff.mpr fun other hoth hprecedes => ?_
    have := precedes_trans (hbef other hoth request List.mem_cons_self) (by simpa using hprecedes)
    rw [not_precedes_self] at this
    cases this
  have hall : leftAfter (some request.cursor) behind = behind :=
    List.filter_eq_self.mpr fun other hoth => by simpa using hbehind other hoth
  unfold leftAfter at hnone hall ⊢
  rw [List.filter_append, hnone, List.filter_cons_of_neg (by simp [not_precedes_self]), hall, List.nil_append]

theorem Ordered.sublist {items items' : List ApprovalRequest} (h : Ordered items) (hsub : items'.Sublist items) :
    Ordered items' := List.Pairwise.sublist hsub h

namespace RequestStore

variable (store : RequestStore)

/-- The requests that pass a filter, in order. -/
def listed (passes : ApprovalRequest → Bool) : List ApprovalRequest :=
  (store.requests.filter passes).insertionSort ListsBefore

theorem eq_of_id {store : RequestStore} {a b : ApprovalRequest} (ha : a ∈ store.requests) (hb : b ∈ store.requests)
    (h : a.id = b.id) : a = b :=
  List.inj_on_of_nodup_map store.ids ha hb h

theorem mem_listed {passes : ApprovalRequest → Bool} {request : ApprovalRequest} :
    request ∈ store.listed passes ↔ request ∈ store.requests ∧ passes request = true := by
  rw [listed, List.mem_insertionSort, List.mem_filter]

theorem ordered_listed (passes : ApprovalRequest → Bool) : Ordered (store.listed passes) := by
  have hsrt : (store.listed passes).Pairwise ListsBefore := List.pairwise_insertionSort ..
  have hnd : (store.listed passes).Nodup :=
    (List.perm_insertionSort ..).nodup_iff.mpr ((List.Nodup.of_map _ store.ids).filter _)
  refine (hsrt.and hnd).imp_of_mem ?_
  rintro a b ha hb ⟨hbef, hne⟩
  rw [precedes_iff]
  rcases hbef with hbef | ⟨htime, hid⟩
  · exact .inl hbef
  · refine .inr ⟨htime, lt_of_le_of_ne hid fun hid => hne ?_⟩
    exact eq_of_id ((store.mem_listed).mp ha).1 ((store.mem_listed).mp hb).1 hid

/-- A filter may come after the sorting. -/
theorem listed_filter (passes also : ApprovalRequest → Bool) :
    store.listed (fun request => passes request && also request) = (store.listed passes).filter also := by
  refine List.Perm.eq_of_pairwise ?_ (store.ordered_listed _) ((store.ordered_listed passes).sublist List.filter_sublist)
    ?_
  · intro a b _ _ hab hba
    have := precedes_trans hab hba
    rw [not_precedes_self] at this
    cases this
  · refine (List.perm_insertionSort ..).trans (List.Perm.trans ?_ ((List.perm_insertionSort ..).filter also).symm)
    rw [List.filter_filter]
    simp only [Bool.and_comm]
    exact List.Perm.refl _

end RequestStore

/-! ## One page -/

section Pages

variable {holds : ApprovalRequest → Bool} {limit : Nat}

/-- A batch fills the page at one of its requests, or leaves it open with all that it held. -/
theorem collect_cases (holds : ApprovalRequest → Bool) {items : List ApprovalRequest} (after : Option ApprovalCursor) (batch : List ApprovalRequest)
    (h : items.length < limit) :
    (collect holds limit items after batch =
        .inr (items ++ batch.filter holds, (batch.getLast?.map (·.cursor)).or after) ∧
      (items ++ batch.filter holds).length < limit) ∨
    ∃ before request behind, batch = before ++ request :: behind ∧ holds request = true ∧
      (items ++ before.filter holds).length + 1 = limit ∧ collect holds limit items after batch =
        .inl { items := items ++ before.filter holds ++ [request], nextCursor := some request.cursor.encode } := by
  induction batch generalizing items after with
  | nil => exact .inl ⟨by simp [collect], by simpa using h⟩
  | cons request batch ih =>
    have hlast : ∀ after', ((request :: batch).getLast?.map (·.cursor)).or after' =
        (batch.getLast?.map (·.cursor)).or (some request.cursor) := by
      intro after'
      rw [List.getLast?_cons]
      cases batch.getLast? <;> rfl
    by_cases hhol : holds request = true
    · by_cases hfull : (items ++ [request]).length = limit
      · right
        refine ⟨[], request, batch, rfl, hhol, ?_, ?_⟩
        · simpa using hfull
        · rw [collect, if_pos hhol, if_pos hfull]
          simp
      · rw [collect, if_pos hhol, if_neg hfull, hlast]
        have hless : (items ++ [request]).length < limit := by
          rw [List.length_append, List.length_singleton] at hfull ⊢
          omega
        rcases ih (some request.cursor) hless with ⟨hcollect, hlen⟩ | ⟨before, last, behind, rfl, hlast, hlen, hcollect⟩
        · left
          rw [hcollect, List.filter_cons_of_pos hhol, ← List.append_cons]
          exact ⟨rfl, by rwa [← List.append_cons] at hlen⟩
        · right
          refine ⟨request :: before, last, behind, rfl, hlast, ?_, ?_⟩
          · rwa [List.filter_cons_of_pos hhol, List.append_cons]
          · rw [hcollect, List.filter_cons_of_pos hhol, ← List.append_cons items]
    · rw [collect, if_neg hhol, hlast]
      rcases ih (some request.cursor) h with ⟨hcollect, hlen⟩ | ⟨before, last, behind, rfl, hlast, hlen, hcollect⟩
      · left
        rw [hcollect, List.filter_cons_of_neg hhol]
        exact ⟨rfl, hlen⟩
      · right
        exact ⟨request :: before, last, behind, rfl, hlast, by rwa [List.filter_cons_of_neg hhol],
          by rw [hcollect, List.filter_cons_of_neg hhol]⟩

inductive PageOf (holds : ApprovalRequest → Bool) (limit : Nat) (items left : List ApprovalRequest) : InboxPage → Prop where
  | last : (items ++ left.filter holds).length < limit →
    PageOf holds limit items left { items := items ++ left.filter holds, nextCursor := none }
  | full {before behind : List ApprovalRequest} {request : ApprovalRequest} :
    left = before ++ request :: behind → holds request = true →
      (items ++ before.filter holds).length + 1 = limit →
        PageOf holds limit items left
          { items := items ++ before.filter holds ++ [request], nextCursor := some request.cursor.encode }

variable {store : RequestStore} {states : List ApprovalState} {appName : Option String}

def RequestStore.selected (store : RequestStore) (states : List ApprovalState) (appName : Option String) :
    List ApprovalRequest :=
  store.listed fun request => (states.isEmpty || states.contains request.state) &&
    appName.all fun app => app = request.scope.appName

theorem listRequests_eq (store : RequestStore) (states : List ApprovalState) (appName : Option String)
    (after : Option ApprovalCursor) (size : Nat) :
    store.listRequests { states, appName, after, limit := size } =
      (leftAfter after (store.selected states appName)).take size := by
  rw [RequestStore.listRequests, RequestStore.selected, leftAfter, ← RequestStore.listed_filter, RequestStore.listed]
  congr 3
  funext request
  simp [ApprovalRequestQuery.selects]

theorem fillPage_pageOf (holds : ApprovalRequest → Bool) {fuel : Nat} (items : List ApprovalRequest) {after : Option ApprovalCursor}
    (hits : items.length < limit) (hfuel : (leftAfter after (store.selected states appName)).length < fuel) :
    ∃ page, fillPage holds limit store states appName fuel items after = some page ∧
      PageOf holds limit items (leftAfter after (store.selected states appName)) page := by
  induction fuel generalizing items after with
  | zero => omega
  | succ fuel ih =>
    have hordd : Ordered (store.selected states appName) := store.ordered_listed _
    obtain ⟨earlier, hearl⟩ := hordd.leftAfter_suffix after
    generalize hleft : leftAfter after (store.selected states appName) = left at *
    have hbat := listRequests_eq store states appName after defaultApprovalPage
    rw [hleft] at hbat
    unfold fillPage
    simp only [hbat]
    have hsp := List.take_append_drop defaultApprovalPage left
    rcases collect_cases holds after (left.take defaultApprovalPage) hits with
      ⟨hcollect, hlen⟩ | ⟨before, request, behind, htake, hhol, hlen, hcollect⟩
    · rw [hcollect]
      dsimp only
      by_cases hsht : (left.take defaultApprovalPage).length < defaultApprovalPage
      · rw [if_pos hsht]
        have hall : left.take defaultApprovalPage = left := by
          apply List.take_of_length_le
          rw [List.length_take] at hsht
          omega
        rw [hall] at hlen ⊢
        exact ⟨_, rfl, .last hlen⟩
      · -- a whole batch: what is left after its last request is the rest
        rw [if_neg hsht]
        have hlong : defaultApprovalPage ≤ left.length := by
          rw [List.length_take] at hsht
          omega
        obtain ⟨before, request, htake⟩ : ∃ before request, left.take defaultApprovalPage = before ++ [request] := by
          rcases List.eq_nil_or_concat (left.take defaultApprovalPage) with hnil | ⟨before, request, htake⟩
          · rw [hnil] at hsht
            exact absurd (by decide : ([] : List ApprovalRequest).length < defaultApprovalPage) hsht
          · exact ⟨before, request, by simpa using htake⟩
        have haft : leftAfter (some request.cursor) (store.selected states appName) = left.drop defaultApprovalPage := by
          have hwh : store.selected states appName =
              (earlier ++ before) ++ request :: left.drop defaultApprovalPage := by
            have hends : left = before ++ [request] ++ left.drop defaultApprovalPage := by
              rw [← htake]
              exact hsp.symm
            rw [← hearl, List.append_assoc, List.append_cons before, ← hends]
          rw [hwh]
          exact Ordered.leftAfter_cursor (hwh ▸ hordd)
        rw [htake, List.getLast?_concat, Option.map_some, Option.some_or]
        rw [htake] at hlen
        have hdrop : (leftAfter (some request.cursor) (store.selected states appName)).length < fuel := by
          rw [haft, List.length_drop]
          have : 0 < defaultApprovalPage := by decide
          omega
        obtain ⟨page, hpage, hof⟩ := ih _ hlen hdrop
        refine ⟨page, hpage, ?_⟩
        rw [haft] at hof
        have hfilter : (before ++ [request]).filter holds ++ (left.drop defaultApprovalPage).filter holds =
            left.filter holds := by
          rw [← List.filter_append, ← htake, hsp]
        cases hof with
        | last hlast =>
          rw [List.append_assoc, hfilter] at hlast ⊢
          exact .last hlast
        | @full before' behind' request' hdropped hhol' hlen' =>
          have hleft' : left = (before ++ [request] ++ before') ++ request' :: behind' := by
            rw [← hsp, htake, hdropped]
            simp
          have hfilter' : items ++ (before ++ [request]).filter holds ++ before'.filter holds =
              items ++ (before ++ [request] ++ before').filter holds := by
            rw [List.append_assoc, ← List.filter_append]
          rw [hfilter'] at hlen' ⊢
          exact .full hleft' hhol' hlen'
    · have hends : left = before ++ request :: (behind ++ left.drop defaultApprovalPage) := by
        rw [← List.cons_append, ← List.append_assoc, ← htake]
        exact hsp.symm
      rw [hcollect]
      exact ⟨_, rfl, .full hends hhol hlen⟩

theorem PageOf.first {left : List ApprovalRequest} {page : InboxPage} (h : PageOf holds limit [] left page)
    (hordd : Ordered left) {request : ApprovalRequest} (hmem : request ∈ left) (hhol : holds request = true) :
    ∃ item ∈ page.items, item = request ∨ item.cursor.precedes request = true := by
  cases h with
  | last => exact ⟨request, by simpa using ⟨hmem, hhol⟩, .inl rfl⟩
  | @full before behind last hleft =>
    subst hleft
    obtain ⟨-, hrest, -⟩ := List.pairwise_append.mp hordd
    rcases List.mem_append.mp hmem with hmem | hmem
    · exact ⟨request, by simp [hmem, hhol], .inl rfl⟩
    · refine ⟨last, by simp, ?_⟩
      rcases List.mem_cons.mp hmem with rfl | hmem
      · exact .inl rfl
      · exact .inr ((List.pairwise_cons.mp hrest).1 request hmem)

theorem PageOf.congr {holds' : ApprovalRequest → Bool} {items left : List ApprovalRequest} {page : InboxPage}
    (h : PageOf holds limit items left page) (hsame : ∀ request ∈ left, holds request = holds' request) :
    PageOf holds' limit items left page := by
  cases h with
  | last hlen =>
    rw [List.filter_congr hsame] at hlen ⊢
    exact .last hlen
  | @full before behind request hleft hhol hlen =>
    subst hleft
    rw [List.filter_congr fun other hoth => hsame other (List.mem_append_left _ hoth)] at hlen ⊢
    exact .full rfl (hsame request (by simp) ▸ hhol) hlen

end Pages

/-! ## All pages -/

section Walk

variable {store : RequestStore} {query : InboxQuery} {clock : Nat → Utc}

def RequestStore.inboxOf (store : RequestStore) (query : InboxQuery) : List ApprovalRequest :=
  store.selected query.listedStates query.appName

def Reads (store : RequestStore) (query : InboxQuery) (cursor : Option String) (left : List ApprovalRequest) : Prop :=
  ∀ now, ∃ page, inbox store now { query with cursor } = .ok (some page) ∧
    PageOf (query.holds store now) query.pageSize [] left page

theorem pageSize_pos (query : InboxQuery) : 0 < query.pageSize := by
  unfold InboxQuery.pageSize
  omega

theorem length_leftAfter (store : RequestStore) (query : InboxQuery) (after : Option ApprovalCursor) :
    (leftAfter after (store.inboxOf query)).length < store.requests.length + 1 := by
  have hfilter : (leftAfter after (store.inboxOf query)).length ≤ (store.inboxOf query).length := List.length_filter_le ..
  have hlst : (store.inboxOf query).length ≤ store.requests.length := by
    rw [RequestStore.inboxOf, RequestStore.selected, RequestStore.listed, List.length_insertionSort]
    exact List.length_filter_le ..
  omega

theorem reads_first : Reads store query none (store.inboxOf query) := by
  intro now
  obtain ⟨page, hpage, hof⟩ := fillPage_pageOf (query.holds store now) [] (pageSize_pos query) (length_leftAfter store query none)
  rw [leftAfter_none] at hof
  exact ⟨page, congrArg Except.ok hpage, hof⟩

variable {request : ApprovalRequest} {left : List ApprovalRequest}

/-- From the token of a request on, a page is made of what is left after its position as the token tells it. -/
theorem reads_token (query : InboxQuery) (h : request ∈ store.requests) :
    Reads store query (some request.cursor.encode) (leftAfter (some request.cursor.rounded) (store.inboxOf query)) := by
  intro now
  obtain ⟨page, hpage, hof⟩ := fillPage_pageOf (query.holds store now) [] (pageSize_pos query)
    (length_leftAfter store query (some request.cursor.rounded))
  have hdecode := ApprovalCursor.decode_encode request.cursor (store.times request h).1 (store.times request h).2
  refine ⟨page, ?_, hof⟩
  unfold inbox
  dsimp only
  rw [hdecode]
  exact congrArg Except.ok hpage

theorem mem_of_mem_inboxOf (h : request ∈ store.inboxOf query) : request ∈ store.requests :=
  (store.mem_listed.mp h).1

/-- What the approver may see, of what the inbox selects from. -/
theorem visible_eq (store : RequestStore) (query : InboxQuery) (now : Utc) : store.visible query now = (store.inboxOf query).filter (query.holds store now) := by
  have hstts : ∀ state, (query.listedStates.isEmpty || query.listedStates.contains state) =
      query.listedStates.contains state := by
    intro state
    cases hemp : query.listedStates.isEmpty with
    | false => rfl
    | true =>
      unfold InboxQuery.listedStates at hemp
      split at hemp
      · cases hemp
      · next hstts => exact absurd hemp hstts
  rw [RequestStore.inboxOf, RequestStore.selected, ← RequestStore.listed_filter]
  simp only [hstts]
  rfl

theorem endOnMicros_append {limit : Nat} {before rest : List ApprovalRequest}
    (h : before.length + 1 = limit) : EndOnMicros limit (before ++ request :: rest) ↔
      request.createdAt % 1000 = 0 ∧ EndOnMicros limit rest := by
  have hlast : (before ++ request :: rest)[(0 + 1) * limit - 1]? = some request := by
    have : (0 + 1) * limit - 1 = before.length := by omega
    rw [this]
    simp
  have hlat : ∀ page, (before ++ request :: rest)[(page + 1 + 1) * limit - 1]? = rest[(page + 1) * limit - 1]? := by
    intro page
    have hidx : (page + 1 + 1) * limit - 1 = before.length + 1 + ((page + 1) * limit - 1) := by
      have hpos : limit ≤ (page + 1) * limit := Nat.le_mul_of_pos_left _ (Nat.succ_pos _)
      rw [Nat.add_mul (page + 1) 1 limit]
      omega
    rw [hidx, List.append_cons, List.getElem?_append_right (by simp)]
    congr 1
    simp
  constructor
  · intro hends
    refine ⟨hends 0 request hlast, fun page other hoth => hends (page + 1) other ?_⟩
    rw [hlat]
    exact hoth
  · rintro ⟨hreq, hrest⟩ page other hoth
    cases page with
    | zero =>
      rw [hlast] at hoth
      cases hoth
      exact hreq
    | succ page =>
      rw [hlat] at hoth
      exact hrest page other hoth

theorem endOnMicros_of_length_lt {limit : Nat} {items : List ApprovalRequest} (h : items.length < limit) :
    EndOnMicros limit items := by
  intro page request hreq
  obtain ⟨hidx, -⟩ := List.getElem?_eq_some_iff.mp hreq
  have : limit ≤ (page + 1) * limit := Nat.le_mul_of_pos_left _ (Nat.succ_pos _)
  omega

variable (hsame : ∀ n, ∀ request ∈ store.requests, query.holds store (clock n) request = query.holds store (clock 0) request)
include hsame

theorem Reads.page {cursor : Option String} (h : Reads store query cursor left)
    (hleft : left <:+ store.inboxOf query) (n : Nat) :
    ∃ page, inbox store (clock n) { query with cursor } = .ok (some page) ∧
      PageOf (query.holds store (clock 0)) query.pageSize [] left page := by
  obtain ⟨page, hpage, hof⟩ := h (clock n)
  exact ⟨page, hpage, hof.congr fun request hreq =>
    hsame n request (mem_of_mem_inboxOf (hleft.subset hreq))⟩

theorem pages_of_ends (hleft : left <:+ store.inboxOf query) (n : Nat)
    {cursor : Option String} (hrd : Reads store query cursor left)
    (hends : EndOnMicros query.pageSize (left.filter (query.holds store (clock 0)))) :
    ∃ pages, Pages store query clock n cursor pages ∧
      pages.flatMap (·.items) = left.filter (query.holds store (clock 0)) := by
  induction hlen : left.length using Nat.strong_induction_on generalizing left n cursor with
  | _ length ih =>
    obtain ⟨page, hpage, hof⟩ := hrd.page hsame hleft n
    cases hof with
    | last _ => exact ⟨_, .last hpage rfl, by simp⟩
    | @full before behind request hends' hhol hfull =>
      subst hends'
      obtain ⟨earlier, hwh⟩ := hleft
      have hordd : Ordered (store.inboxOf query) := store.ordered_listed _
      have hmem : request ∈ store.requests := mem_of_mem_inboxOf (by rw [← hwh]; simp)
      rw [List.nil_append] at hfull
      rw [List.filter_append, List.filter_cons_of_pos hhol, endOnMicros_append hfull] at hends
      have haft : leftAfter (some request.cursor.rounded) (store.inboxOf query) = behind := by
        rw [rounded_eq hends.1, ← hwh, ← List.append_assoc]
        apply Ordered.leftAfter_cursor
        rwa [List.append_assoc, hwh]
      have hrd' := reads_token query hmem
      rw [haft] at hrd'
      have hbehind : behind <:+ store.inboxOf query :=
        ⟨earlier ++ (before ++ [request]), by rw [← hwh]; simp⟩
      obtain ⟨pages, hpages, hits⟩ := ih behind.length (by rw [← hlen]; simp; omega) hbehind (n + 1) hrd'
        hends.2 rfl
      refine ⟨_, .next hpage rfl hpages, ?_⟩
      rw [List.flatMap_cons, hits, List.filter_append, List.filter_cons_of_pos hhol]
      simp

theorem ends_of_pages (hleft : left <:+ store.inboxOf query) {n : Nat}
    {cursor : Option String} (hrd : Reads store query cursor left) {pages : List InboxPage}
    (hpages : Pages store query clock n cursor pages)
    (hits : pages.flatMap (·.items) = left.filter (query.holds store (clock 0))) :
    EndOnMicros query.pageSize (left.filter (query.holds store (clock 0))) := by
  have hordd : Ordered (store.inboxOf query) := store.ordered_listed _
  induction hpages generalizing left with
  | @last n cursor page hpage hnone =>
    obtain ⟨page', hpage', hof⟩ := hrd.page hsame hleft n
    rw [hpage] at hpage'
    cases hpage'
    cases hof with
    | last hsht => exact endOnMicros_of_length_lt (by simpa using hsht)
    | full => cases hnone
  | @next n cursor page token pages hpage htoken hpages ih =>
    obtain ⟨page', hpage', hof⟩ := hrd.page hsame hleft n
    rw [hpage] at hpage'
    cases hpage'
    cases hof with
    | last => cases htoken
    | @full before behind request hends' hhol hfull =>
      subst hends'
      cases htoken
      obtain ⟨earlier, hwh⟩ := hleft
      have hmem : request ∈ store.requests := mem_of_mem_inboxOf (by rw [← hwh]; simp)
      have hrd' := reads_token query hmem
      have hbehind : behind <:+ store.inboxOf query :=
        ⟨earlier ++ (before ++ [request]), by rw [← hwh]; simp⟩
      have hrest : pages.flatMap (·.items) = behind.filter (query.holds store (clock 0)) := by
        rw [List.flatMap_cons, List.filter_append, List.filter_cons_of_pos hhol] at hits
        simpa using hits
      rw [List.nil_append] at hfull
      rw [List.filter_append, List.filter_cons_of_pos hhol, endOnMicros_append hfull]
      by_cases hmicros : request.createdAt % 1000 = 0
      · refine ⟨hmicros, ih hbehind ?_ hrest⟩
        have haft : leftAfter (some request.cursor.rounded) (store.inboxOf query) = behind := by
          rw [rounded_eq hmicros, ← hwh, ← List.append_assoc]
          apply Ordered.leftAfter_cursor
          rwa [List.append_assoc, hwh]
        rwa [haft] at hrd'
      · -- the next page begins no later than the request, which is before all that is left
        exfalso
        have hag : request ∈ leftAfter (some request.cursor.rounded) (store.inboxOf query) := by
          rw [leftAfter, List.mem_filter]
          exact ⟨by rw [← hwh]; simp, rounded_precedes_self.mpr hmicros⟩
        have hsuffix := hordd.leftAfter_suffix (some request.cursor.rounded)
        obtain ⟨page', hpage', hof⟩ := hrd'.page hsame hsuffix (n + 1)
        obtain ⟨item, hitem, hfst⟩ := hof.first (hordd.sublist hsuffix.sublist) hag hhol
        have hbehindItem : item ∈ behind := by
          have hmemPages : item ∈ pages.flatMap (·.items) := by
            cases hpages with
            | last hread _ =>
              rw [hread] at hpage'
              cases hpage'
              simpa using hitem
            | next hread _ _ =>
              rw [hread] at hpage'
              cases hpage'
              exact List.mem_flatMap.mpr ⟨_, List.mem_cons_self, hitem⟩
          rw [hrest] at hmemPages
          exact List.mem_of_mem_filter hmemPages
        rw [← hwh] at hordd
        obtain ⟨-, hlast, -⟩ := List.pairwise_append.mp (List.pairwise_append.mp hordd).2.1
        have haft := (List.pairwise_cons.mp hlast).1 item hbehindItem
        rcases hfst with rfl | hfst
        · rw [not_precedes_self] at haft
          cases haft
        · have := precedes_trans haft hfst
          rw [not_precedes_self] at this
          cases this

/-- **Following the tokens lists every request that the approver may see once and in order, and ends, exactly where
each page ends at a request that was created on a whole microsecond.** -/
theorem coversExactly_iff : CoversExactly store query clock ↔
    EndOnMicros query.pageSize (store.visible query (clock 0)) := by
  rw [visible_eq]
  constructor
  · rintro ⟨pages, hpages, hitems⟩
    rw [visible_eq] at hitems
    exact ends_of_pages hsame List.suffix_rfl reads_first hpages hitems
  · intro hends
    obtain ⟨pages, hpages, hitems⟩ := pages_of_ends hsame List.suffix_rfl 0 reads_first hends
    exact ⟨pages, hpages, hitems.trans (visible_eq ..).symm⟩

end Walk

/-! A store with one request. -/

def requestAt (createdAt : Utc) : ApprovalRequest where
  id := "apr_1"
  scope := { appName := "app", userId := "ana", sessionId := "s" }
  toolName := "pay"
  createdAt
  policy := { approvers := [.group "finance"] }

def storeAt (createdAt : Utc) (hmin : minUtc ≤ createdAt) (hmax : createdAt ≤ maxUtc) : RequestStore where
  requests := [requestAt createdAt]
  ids := List.nodup_singleton _
  times := by
    intro request hrequest
    rw [List.mem_singleton.mp hrequest]
    exact ⟨hmin, hmax⟩

def onePerPage : InboxQuery := { limit := 1 }

/-- A page that ends within a microsecond is followed by the same request. -/
theorem not_coversExactly : ¬ ∀ (store : RequestStore) query clock,
    (∀ n, ∀ request ∈ store.requests, query.holds store (clock n) request = query.holds store (clock 0) request) →
      CoversExactly store query clock := by
  intro h
  obtain ⟨pages, hpages, hitems⟩ := h (storeAt 1500 (by decide) (by decide)) onePerPage (fun _ => 0) fun _ _ _ => rfl
  have hvisible := visible_eq (storeAt 1500 (by decide) (by decide)) onePerPage 0
  have hends := ends_of_pages (fun _ _ _ => rfl) List.suffix_rfl reads_first hpages (hitems.trans hvisible)
  exact absurd (hends 0 (requestAt 1500) rfl) (by decide)

theorem coversExactly_of_micros : CoversExactly (storeAt 1000 (by decide) (by decide)) onePerPage fun _ => 0 := by
  refine (coversExactly_iff fun _ _ _ => rfl).mpr fun page request hrequest => ?_
  have hmem := List.mem_of_getElem? hrequest
  rw [visible_eq] at hmem
  rw [List.mem_singleton.mp (mem_of_mem_inboxOf (List.mem_of_mem_filter hmem))]
  decide

end Approvals

end Adk
