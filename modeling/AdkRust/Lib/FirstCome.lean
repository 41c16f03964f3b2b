import Mathlib.Data.List.Basic
import Mathlib.Data.List.Perm.Basic
import Mathlib.Data.List.Induction

/-!
# Requests that are answered first come

Requests are sent and replies come back. A reply takes away the first request in flight that has its label, and
nothing where there is none. Each request has a key, which says more than its label, and each reply names one.

* `inFlight`: the requests in flight after some marks.
* `ofLabel_inFlight`: the requests of a label in flight are its last.
* `AnsweredFirst`: the replies of a label came to its first requests.
* `answeredFirst_iff_count`: **each reply took away a request of the key it names exactly where the replies of each
  label came to its first requests.**
* `inFlight_append_replies`: replies to all that is in flight leave nothing.
-/

namespace Adk

namespace FirstCome

/-- A request is sent, or a reply comes back. -/
inductive Delivery (α ρ : Type) where
  | sent (request : α)
  | answered (reply : ρ)

variable {α ρ β κ : Type}

def requests (marks : List (Delivery α ρ)) : List α :=
  marks.filterMap fun
    | .sent request => some request
    | .answered _ => none

/-- The replies that came back. -/
def replies (marks : List (Delivery α ρ)) : List ρ :=
  marks.filterMap fun
    | .sent _ => none
    | .answered reply => some reply

@[simp] theorem requests_nil : requests ([] : List (Delivery α ρ)) = [] := rfl

@[simp] theorem replies_nil : replies ([] : List (Delivery α ρ)) = [] := rfl

@[simp] theorem requests_append (first second : List (Delivery α ρ)) :
    requests (first ++ second) = requests first ++ requests second := List.filterMap_append

@[simp] theorem replies_append (first second : List (Delivery α ρ)) :
    replies (first ++ second) = replies first ++ replies second := List.filterMap_append

@[simp] theorem requests_sent (request : α) : requests ([.sent request] : List (Delivery α ρ)) = [request] := rfl

@[simp] theorem replies_sent (request : α) : replies ([.sent request] : List (Delivery α ρ)) = [] := rfl

@[simp] theorem requests_answered (reply : ρ) : requests ([.answered reply] : List (Delivery α ρ)) = [] := rfl

@[simp] theorem replies_answered (reply : ρ) : replies ([.answered reply] : List (Delivery α ρ)) = [reply] := rfl

theorem eq_replies_of_requests_nil {marks : List (Delivery α ρ)} (h : requests marks = []) :
    marks = (replies marks).map .answered := by
  induction marks with
  | nil => rfl
  | cons mark marks ih =>
    cases mark with
    | sent request => cases h
    | answered reply => exact congrArg _ (ih h)

section OfLabel

variable [DecidableEq β]

def ofLabel (label : α → β) (name : β) (items : List α) : List α := items.filter fun item => label item = name

variable {label : α → β} {name : β} {items : List α}

@[simp] theorem ofLabel_nil : ofLabel label name [] = [] := rfl

@[simp] theorem ofLabel_append (first second : List α) :
    ofLabel label name (first ++ second) = ofLabel label name first ++ ofLabel label name second :=
  List.filter_append ..

theorem ofLabel_singleton (item : α) : ofLabel label name [item] = if label item = name then [item] else [] := by
  by_cases h : label item = name <;> simp [ofLabel, h]

@[simp] theorem mem_ofLabel {item : α} : item ∈ ofLabel label name items ↔ item ∈ items ∧ label item = name := by
  simp [ofLabel]

theorem length_ofLabel : (ofLabel label name items).length = (items.map label).count name := by
  rw [ofLabel, ← List.countP_eq_length_filter, List.count_eq_countP, List.countP_map]
  apply List.countP_congr
  intro item _
  simp

theorem ofLabel_drop (n : Nat) :
    ofLabel label name (items.drop n) = (ofLabel label name items).drop (ofLabel label name (items.take n)).length := by
  have h : ofLabel label name items = ofLabel label name (items.take n) ++ ofLabel label name (items.drop n) := by
    rw [← ofLabel_append, List.take_append_drop]
  rw [h, List.drop_left]

theorem ofLabel_ofLabel [DecidableEq κ] (key : α → κ) (labelOf : κ → β) (items : List α) (k : κ) :
    ofLabel key k (ofLabel (fun item => labelOf (key item)) (labelOf k) items) = ofLabel key k items := by
  unfold ofLabel
  rw [List.filter_filter]
  apply List.filter_congr
  intro item _
  by_cases h : key item = k <;> simp [h]

end OfLabel

section InFlight

variable [DecidableEq β]

/-- The requests in flight after a mark. -/
def receive (label : α → β) (names : ρ → β) (waiting : List α) : Delivery α ρ → List α
  | .sent request => waiting ++ [request]
  | .answered reply => waiting.eraseP fun request => label request = names reply

def inFlight (label : α → β) (names : ρ → β) (marks : List (Delivery α ρ)) : List α :=
  marks.foldl (receive label names) []

variable {label : α → β} {names : ρ → β} {name : β} {marks : List (Delivery α ρ)}

theorem inFlight_append_singleton (mark : Delivery α ρ) :
    inFlight label names (marks ++ [mark]) = receive label names (inFlight label names marks) mark := by
  rw [inFlight, List.foldl_append]
  rfl

/-- A reply takes the first request of its label and no other. -/
theorem ofLabel_eraseP (waiting : List α) (name' : β) :
    ofLabel label name (waiting.eraseP fun request => label request = name') =
      if name' = name then (ofLabel label name waiting).tail else ofLabel label name waiting := by
  induction waiting with
  | nil => simp
  | cons request waiting ih =>
    by_cases hfst : label request = name'
    · rw [List.eraseP_cons_of_pos (by simpa using hfst)]
      by_cases hname : name' = name <;> simp [ofLabel, hfst, hname]
    · rw [List.eraseP_cons_of_neg (by simpa using hfst)]
      unfold ofLabel at ih ⊢
      by_cases hname : name' = name
      · subst hname
        simp [hfst, ih]
      · by_cases hreq : label request = name <;> simp [hreq, ih, hname]

/-- Every reply of a label found a request of it in flight. -/
def Met (label : α → β) (names : ρ → β) (name : β) (marks : List (Delivery α ρ)) : Prop :=
  ∀ first, first <+: marks →
    (ofLabel names name (replies first)).length ≤ (ofLabel label name (requests first)).length

theorem met_append_singleton (mark : Delivery α ρ) :
    Met label names name (marks ++ [mark]) ↔ Met label names name marks ∧
      (ofLabel names name (replies (marks ++ [mark]))).length ≤
        (ofLabel label name (requests (marks ++ [mark]))).length := by
  constructor
  · intro h
    exact ⟨fun first hfst => h first (hfst.trans (List.prefix_append ..)), h _ List.prefix_rfl⟩
  · rintro ⟨h, hlast⟩ first hfst
    rcases List.prefix_concat_iff.mp hfst with rfl | hfst
    · exact hlast
    · exact h first hfst

/-- **The requests of a label in flight are its last.** The others were met by replies, by all of them exactly where
every reply found a request. -/
theorem ofLabel_inFlight (label : α → β) (names : ρ → β) (name : β) (marks : List (Delivery α ρ)) : ∃ met,
    ofLabel label name (inFlight label names marks) = (ofLabel label name (requests marks)).drop met ∧
      met ≤ (ofLabel label name (requests marks)).length ∧ met ≤ (ofLabel names name (replies marks)).length ∧
      (met = (ofLabel names name (replies marks)).length ↔ Met label names name marks) := by
  induction marks using List.reverseRecOn with
  | nil =>
    refine ⟨0, rfl, Nat.zero_le _, Nat.zero_le _, ⟨fun _ first hfst => ?_, fun _ => rfl⟩⟩
    rw [List.prefix_nil.mp hfst]
    exact Nat.le_refl _
  | append_singleton marks mark ih =>
    obtain ⟨met, hflight, hreqs, hreplies, hmet⟩ := ih
    rw [inFlight_append_singleton, met_append_singleton, ← hmet]
    cases mark with
    | sent request =>
      refine ⟨met, ?_, ?_, ?_, ?_⟩
      · rw [receive, ofLabel_append, hflight, requests_append, requests_sent, ofLabel_append,
          List.drop_append_of_le_length hreqs]
      · rw [requests_append, ofLabel_append, List.length_append]
        omega
      · simpa using hreplies
      · simp only [replies_append, replies_sent, List.append_nil, requests_append, ofLabel_append, List.length_append]
        omega
    | answered reply =>
      simp only [receive, ofLabel_eraseP, hflight, requests_append, requests_answered, List.append_nil, replies_append,
        replies_answered, ofLabel_append, List.length_append, ofLabel_singleton]
      by_cases hname : names reply = name
      · simp only [hname, ↓reduceIte, List.length_singleton, List.tail_drop]
        by_cases hleft : met < (ofLabel label name (requests marks)).length
        · exact ⟨met + 1, rfl, hleft, by omega, by omega⟩
        · -- nothing was in flight: the reply is dropped
          refine ⟨met, ?_, hreqs, by omega, by omega⟩
          rw [List.drop_eq_nil_of_le (by omega), List.drop_eq_nil_of_le (by omega)]
      · simp only [hname, ↓reduceIte, List.length_nil, Nat.add_zero]
        exact ⟨met, rfl, hreqs, hreplies, by omega⟩

/-- Replies take away the first requests of their label. -/
theorem ofLabel_foldl_answered (rs : List ρ) (waiting : List α) :
    ofLabel label name ((rs.map Delivery.answered).foldl (receive label names) waiting) =
      (ofLabel label name waiting).drop (ofLabel names name rs).length := by
  induction rs generalizing waiting with
  | nil => rfl
  | cons reply rs ih =>
    rw [List.map_cons, List.foldl_cons, ih, receive, ofLabel_eraseP]
    by_cases hname : names reply = name
    · simp [ofLabel, hname, Nat.add_comm]
    · simp [ofLabel, hname]

/-- **Replies to all that is in flight leave nothing.** -/
theorem inFlight_append_replies {rs : List ρ} (h : ∀ name, (ofLabel names name rs).length =
    (ofLabel label name (inFlight label names marks)).length) :
    inFlight label names (marks ++ rs.map .answered) = [] := by
  rw [List.eq_nil_iff_forall_not_mem]
  intro request hreq
  have hnone : ofLabel label (label request) (inFlight label names (marks ++ rs.map .answered)) = [] := by
    rw [inFlight, List.foldl_append, ofLabel_foldl_answered, h]
    exact List.drop_length
  have : request ∈ ofLabel label (label request) (inFlight label names (marks ++ rs.map .answered)) := by
    simpa using hreq
  rw [hnone] at this
  cases this

end InFlight

section Keys

variable [DecidableEq β] [DecidableEq κ] {key : α → κ} {names : ρ → κ} {labelOf : κ → β} {marks : List (Delivery α ρ)}

/-- The replies of a label found requests, and came to its first: each of these has its reply, by its key. -/
structure AnsweredFirst (key : α → κ) (names : ρ → κ) (labelOf : κ → β) (marks : List (Delivery α ρ)) (name : β) :
    Prop where
  met : Met (fun request => labelOf (key request)) (fun reply => labelOf (names reply)) name marks
  first : ((ofLabel (fun reply => labelOf (names reply)) name (replies marks)).map names).Perm
    (((ofLabel (fun request => labelOf (key request)) name (requests marks)).take
      (ofLabel (fun reply => labelOf (names reply)) name (replies marks)).length).map key)

/-- The requests of a label after as many as it has replies. -/
def unanswered (key : α → κ) (names : ρ → κ) (labelOf : κ → β) (marks : List (Delivery α ρ)) (name : β) : List α :=
  (ofLabel (fun request => labelOf (key request)) name (requests marks)).drop
    (ofLabel (fun reply => labelOf (names reply)) name (replies marks)).length

omit [DecidableEq κ] in
theorem AnsweredFirst.inFlight {name : β} (h : AnsweredFirst key names labelOf marks name) :
    ofLabel (fun request => labelOf (key request)) name
      (FirstCome.inFlight (fun request => labelOf (key request)) (fun reply => labelOf (names reply)) marks) =
      unanswered key names labelOf marks name := by
  obtain ⟨met, hflight, -, -, hmet⟩ := ofLabel_inFlight (fun request => labelOf (key request))
    (fun reply => labelOf (names reply)) name marks
  rw [hflight, hmet.mpr h.met]
  rfl

theorem AnsweredFirst.inFlight_key {k : κ} (h : AnsweredFirst key names labelOf marks (labelOf k)) :
    (ofLabel names k (replies marks)).length ≤ (ofLabel key k (requests marks)).length ∧
      ofLabel key k (FirstCome.inFlight (fun request => labelOf (key request)) (fun reply => labelOf (names reply))
        marks) = (ofLabel key k (requests marks)).drop (ofLabel names k (replies marks)).length := by
  have hcnt : (ofLabel names k (replies marks)).length =
      (ofLabel key k ((ofLabel (fun request => labelOf (key request)) (labelOf k) (requests marks)).take
        (ofLabel (fun reply => labelOf (names reply)) (labelOf k) (replies marks)).length)).length := by
    have hfst := h.first.count_eq k
    rw [← length_ofLabel, ← length_ofLabel, ofLabel_ofLabel] at hfst
    exact hfst
  constructor
  · rw [hcnt, ← ofLabel_ofLabel key labelOf (requests marks)]
    exact ((List.take_sublist ..).filter _).length_le
  · rw [← ofLabel_ofLabel key labelOf, h.inFlight, unanswered, ofLabel_drop, ← hcnt,
      ofLabel_ofLabel]

theorem answeredFirst_of_count (h : ∀ k, (ofLabel names k (replies marks)).length + (ofLabel key k
    (inFlight (fun request => labelOf (key request)) (fun reply => labelOf (names reply)) marks)).length =
      (ofLabel key k (requests marks)).length) (name : β) : AnsweredFirst key names labelOf marks name := by
  obtain ⟨met, hflight, hreqs, hreplies, hmet⟩ := ofLabel_inFlight (fun request => labelOf (key request))
    (fun reply => labelOf (names reply)) name marks
  -- the replies of the label are, by their keys, the requests that were met
  have hperm : ((ofLabel (fun reply => labelOf (names reply)) name (replies marks)).map names).Perm
      (((ofLabel (fun request => labelOf (key request)) name (requests marks)).take met).map key) := by
    rw [List.perm_iff_count]
    intro k
    by_cases hk : labelOf k = name
    · subst hk
      have hsp : (ofLabel key k (requests marks)).length =
          (ofLabel key k ((ofLabel (fun request => labelOf (key request)) (labelOf k) (requests marks)).take
            met)).length +
          (ofLabel key k ((ofLabel (fun request => labelOf (key request)) (labelOf k) (requests marks)).drop
            met)).length := by
        rw [← List.length_append, ← ofLabel_append, List.take_append_drop, ofLabel_ofLabel]
      have hk := h k
      rw [← ofLabel_ofLabel key labelOf (inFlight _ _ _), hflight,
        ← ofLabel_ofLabel names labelOf (replies marks)] at hk
      rw [← length_ofLabel, ← length_ofLabel]
      omega
    · rw [List.count_eq_zero_of_not_mem, List.count_eq_zero_of_not_mem]
      · intro hmem
        obtain ⟨request, hreq, rfl⟩ := List.mem_map.mp hmem
        exact hk (mem_ofLabel.mp (List.mem_of_mem_take hreq)).2
      · intro hmem
        obtain ⟨reply, hreply, rfl⟩ := List.mem_map.mp hmem
        exact hk (mem_ofLabel.mp hreply).2
  have hlen : met = (ofLabel (fun reply => labelOf (names reply)) name (replies marks)).length := by
    have := hperm.length_eq
    simp only [List.length_map, List.length_take] at this
    omega
  refine ⟨hmet.mp hlen, ?_⟩
  rw [← hlen]
  exact hperm

/-- **Each key has as many requests as replies and requests in flight exactly where the replies of each label came to
its first requests.** -/
theorem answeredFirst_iff_count : (∀ k, (ofLabel names k (replies marks)).length + (ofLabel key k
    (inFlight (fun request => labelOf (key request)) (fun reply => labelOf (names reply)) marks)).length =
      (ofLabel key k (requests marks)).length) ↔ ∀ name, AnsweredFirst key names labelOf marks name := by
  refine ⟨answeredFirst_of_count, fun h k => ?_⟩
  obtain ⟨hle, hflight⟩ := (h (labelOf k)).inFlight_key
  rw [hflight, List.length_drop]
  omega

end Keys

end FirstCome

end Adk
