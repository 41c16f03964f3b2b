import AdkRust.Lib.Radix64
import AdkRust.Lib.Sha2
import AdkRust.SignedAudit.Chain
import AdkRust.SignedAudit.Proofs

/-!
# Writers do not fork a log

Any number of writers of one log of the in-memory store, opened at any time, whose store calls interleave in any order.

* `Triple`: what a program ensures of the leaves, whatever the other calls do.
* `noFork_always`: **no run forks the log.**
-/

namespace Adk

namespace SignedAudit

open Merkle ProcPool

/-! ## Entries -/

/-- An operation that is no refused append. -/
def Taken (entry : AuditEntry) : Prop := ∀ w batch error, entry ≠ ⟨w, .append batch, .error error⟩

theorem forall_concat {P : AuditEntry → Prop} {log : List AuditEntry} {entry : AuditEntry} (hlog : ∀ e ∈ log, P e)
    (hent : P entry) : ∀ e ∈ log ++ [entry], P e := by
  intro e he
  rcases List.mem_append.mp he with hold | hnew
  · exact hlog e hold
  · rw [List.mem_singleton.mp hnew]
    exact hent

theorem taken_of_ne {w : AuditWorld} {op : AuditOp} {r : op.Ret} (h : ∀ batch, op ≠ .append batch) :
    Taken ⟨w, op, r⟩ := by
  intro w' batch error heq
  exact h batch (congrArg Entry.op heq)

/-- Every append so far was taken. -/
abbrev AllTaken (log : List AuditEntry) : Prop := ∀ entry ∈ log, Taken entry

/-- Nothing so far changed anything. -/
abbrev AllUnchanged (faults : AuditFaults) (logId : String) (log : List AuditEntry) : Prop :=
  ∀ entry ∈ log, Unchanged entry faults logId

section LogTriple

variable {logId : String} {faults : AuditFaults} {α : Type} {F E : List AuditEntry → Prop} {R : α → List AuditEntry → Prop}

theorem logTriple_result {result : Except AdkError α} (hok : ∀ a, result = .ok a → ∀ log, F log → R a log)
    (herr : ∀ error, result = .error error → ∀ log, F log → E log) :
    LogTriple (AuditWorld.laws faults logId) F (answered result) E R := by
  cases result with
  | ok a => exact LogTriple.pure (hok a rfl)
  | error error => exact LogTriple.throw (herr error rfl)

theorem logTriple_taken {op : AuditOp} (h : ∀ batch, op ≠ .append batch) :
    LogTriple (AuditWorld.laws faults logId) AllTaken (perform op) AllTaken fun _ => AllTaken :=
  LogTriple.perform fun _ _ _ _ hlog _ => forall_concat hlog (taken_of_ne h)

theorem logTriple_answered {result : Except AdkError α} :
    LogTriple (AuditWorld.laws faults logId) AllTaken (answered result) AllTaken fun _ => AllTaken :=
  logTriple_result (fun _ _ _ h => h) fun _ _ _ h => h

theorem logTriple_noted {result : Except NoteError α} :
    LogTriple (AuditWorld.laws faults logId) AllTaken (noted result) AllTaken fun _ => AllTaken := by
  cases result with
  | ok a => exact LogTriple.pure fun _ h => h
  | error error => exact LogTriple.throw fun _ h => h

theorem logTriple_intervalElapsed (log : AuditLog) (state : WriterState) :
    LogTriple (AuditWorld.laws faults logId) AllTaken (intervalElapsed log state) E fun _ => AllTaken := by
  refine LogTriple.bind (R := fun _ => AllTaken) ?_ fun _ => LogTriple.pure fun _ h => h
  exact LogTriple.perform fun _ _ _ _ hlog _ => forall_concat hlog (taken_of_ne fun _ h => by cases h)

theorem logTriple_checkpointDue (log : AuditLog) (state : WriterState) :
    LogTriple (AuditWorld.laws faults logId) AllTaken (checkpointDue log state) E fun _ => AllTaken := by
  unfold checkpointDue
  split
  next => exact LogTriple.pure fun _ h => h
  next => exact logTriple_intervalElapsed log state

/-- The rule for the lock: taking it and giving it up neither changes anything nor is an append. -/
theorem logTriple_guarded {body : AuditLog → AuditProg α} (writer : Nat)
    (hbody : ∀ log, LogTriple (AuditWorld.laws faults logId)
      (fun log => AllUnchanged faults logId log ∧ AllTaken log) (body log) E R)
    (hE : ∀ log entry, Unchanged entry faults logId → Taken entry → E log → E (log ++ [entry]))
    (hR : ∀ a log entry, Unchanged entry faults logId → Taken entry → R a log → R a (log ++ [entry])) :
    LogTriple (AuditWorld.laws faults logId) (fun log => log = []) (guarded writer body) E R := by
  refine LogTriple.bind (R := fun _ log => AllUnchanged faults logId log ∧ AllTaken log) ?_ fun log => ?_
  · refine LogTriple.perform fun log w r w' hlog hr => ?_
    subst hlog
    refine ⟨forall_concat (fun _ h => by cases h) fun w'' hw => ?_, ?_⟩
    · rw [hw.2.2]
      exact ⟨rfl, rfl⟩
    · exact forall_concat (fun _ h => by cases h) (taken_of_ne fun _ h => by cases h)
  refine LogTriple.bind (hbody log).attempt fun result => ?_
  refine LogTriple.bind (R := fun _ log => (∀ a, result = .ok a → R a log) ∧ ∀ e, result = .error e → E log) ?_ fun _ => ?_
  · refine LogTriple.perform fun log w r w' hlog _ => ?_
    have hsame : Unchanged ⟨w, .unlock writer, r⟩ faults logId := by
      intro w'' hw
      have hunlocked : w'' = w.setLocked writer false := hw
      rw [hunlocked]
      exact ⟨rfl, rfl⟩
    have htk : Taken ⟨w, .unlock writer, r⟩ := taken_of_ne fun _ h => by cases h
    cases result with
    | ok a => exact ⟨fun b hb => Except.ok.inj hb ▸ hR a log _ hsame htk hlog, fun _ h => by cases h⟩
    | error error => exact ⟨fun _ h => (by cases h), fun _ _ => hE log _ hsame htk hlog⟩
  · cases result with
    | ok a => exact LogTriple.pure fun _ h => h.1 a rfl
    | error error => exact LogTriple.throw fun _ h => h.2 error rfl

end LogTriple

section Calls

variable {logId : String} {leaves : List AuditHash} {state : WriterState}

variable [FloatText] [Sha256] [Base64]

/-! ## What the calls ensure -/

/-- What is known of the first leaves, in a world where the invariant holds. -/
def Known (logId : String) (F : List AuditHash → Prop) (w : AuditWorld) : Prop := LogInv logId w ∧ F w.log.leaves

/-- What the calls of other writers may do. -/
abbrev AuditRely (logId : String) (w w' : AuditWorld) : Prop := LogInv logId w' ∧ w.log.leaves <+: w'.log.leaves

/-- From what is known before a program, it ensures what is known after it, and the invariant when it fails. -/
def Triple {α : Type} (faults : AuditFaults) (logId : String) (F : List AuditHash → Prop) (p : AuditProg α)
    (R : α → List AuditHash → Prop) : Prop :=
  ∀ w, Known logId F w → Prog.Ensures (relying (AuditWorld.laws faults logId) (AuditRely logId)) (AuditPre logId) (fun _ w => LogInv logId w)
    (fun a => Known logId (R a)) p w

section Triples

variable {faults : AuditFaults} {α β : Type} {F G : List AuditHash → Prop} {p : AuditProg α}
  {R : α → List AuditHash → Prop}

omit [Base64] in
theorem Kept.stable (hF : Kept F) : Prog.Stable (relying (AuditWorld.laws faults logId) (AuditRely logId)) (Known logId F) := by
  rintro w w' ⟨hinv, more, hlvs⟩ ⟨-, hF'⟩
  refine ⟨hinv, ?_⟩
  rw [← hlvs]
  exact hF _ _ hF'

namespace Triple

theorem bind {S : β → List AuditHash → Prop} {f : α → AuditProg β} (hp : Triple faults logId F p R)
    (hf : ∀ a, Triple faults logId (R a) (f a) S) : Triple faults logId F (p >>= f) S :=
  fun w hw => Prog.Ensures.bind (hp w hw) fun a w' h => hf a w' h

theorem pure {a : α} (hF : Kept F) (h : ∀ leaves, F leaves → R a leaves) : Triple faults logId F (Pure.pure a) R :=
  fun _ hw => hF.stable.ensures_pure hw fun _ h' => ⟨h'.1, h _ h'.2⟩

theorem throw {error : AdkError} (hF : Kept F) : Triple faults logId F (throw error : AuditProg α) R :=
  fun _ hw => hF.stable.ensures_throw hw fun _ h' => h'.1

/-- Where nothing can be known, everything is ensured. -/
theorem none : Triple faults logId (fun _ => False) p R := fun _ hw => hw.2.elim

theorem mono {S : α → List AuditHash → Prop} (hp : Triple faults logId F p R) (h : ∀ a leaves, R a leaves → S a leaves) :
    Triple faults logId F p S :=
  fun w hw => Prog.Ensures.mono (hp w hw) (fun a _ h' => ⟨h'.1, h a _ h'.2⟩) fun _ _ h => h

theorem weaken (hp : Triple faults logId F p R) (h : ∀ leaves, G leaves → F leaves) : Triple faults logId G p R :=
  fun w hw => hp w ⟨hw.1, h _ hw.2⟩

/-- What is known besides stays known. -/
theorem frame (hp : Triple faults logId F p R) (hG : Kept G) :
    Triple faults logId (fun leaves => F leaves ∧ G leaves) p fun a leaves => R a leaves ∧ G leaves := by
  intro w hw
  have hrun := hp w ⟨hw.1, hw.2.1⟩
  have hkn := hw.2.2
  unfold Prog.Ensures at hrun ⊢
  generalize p.run = q at hrun ⊢
  clear hw hp
  -- the leaves only grow, by the moves and by the operations
  have hmov : ∀ {w w' : AuditWorld}, Relation.ReflTransGen (relying (AuditWorld.laws faults logId) (AuditRely logId)).moves w w' → G w.log.leaves → G w'.log.leaves := by
    intro w w' h hw
    induction h with
    | refl => exact hw
    | tail _ hmove ih =>
      obtain ⟨-, more, hlvs⟩ := hmove
      rw [← hlvs]
      exact hG _ _ ih
  induction q generalizing w with
  | pure result =>
    intro w' hw
    have hpost := hrun w' hw
    cases result with
    | ok a => exact ⟨hpost.1, hpost.2, hmov hw hkn⟩
    | error error => exact hpost
  | ask op next ih =>
    intro w' hw
    obtain ⟨hpre, hnext⟩ := hrun w' hw
    refine ⟨hpre, fun r w'' hr => ih r w'' ?_ (hnext r w'' hr)⟩
    obtain ⟨more, hlvs⟩ := leaves_answers hr
    rw [← hlvs]
    exact hG _ _ (hmov hw hkn)

/-- The rule for an operation. -/
theorem perform {op : AuditOp} {R : op.Ret → List AuditHash → Prop} (hF : Kept F) (hR : ∀ r, Kept (R r))
    (hpre : ∀ w, Known logId F w → AuditPre logId op w)
    (h : ∀ w r w', Known logId F w → (AuditWorld.laws faults logId).answers op w r w' → R r w'.log.leaves) :
    Triple faults logId F (perform op) R := by
  intro w hw
  refine hF.stable.ensures_perform hw hpre (fun w r w' hw hr => ⟨?_, h w r w' hw hr⟩) fun r => (hR r).stable
  exact logInv_answers hw.1 (hpre w hw) hr

/-- The rule for an operation whose answer does not matter. -/
theorem reads {op : AuditOp} (hF : Kept F) (hpre : ∀ w, Known logId F w → AuditPre logId op w) :
    Triple faults logId F (SignedAudit.perform op) fun _ => F := by
  refine perform hF (fun _ => hF) hpre fun w r w' hw hr => ?_
  obtain ⟨more, hlvs⟩ := leaves_answers hr
  rw [← hlvs]
  exact hF _ _ hw.2

/-- The rule for a program whose failure is looked at. -/
theorem attempt (hp : Triple faults logId F p R) : Triple faults logId F
    (ExceptT.lift p.run : AuditProg (Except AdkError α)) fun result leaves => ∀ a, result = .ok a → R a leaves := by
  intro w hw
  refine Prog.Ensures.lift (Prog.Holds.mono (hp w hw) fun result w' h => ?_)
  cases result with
  | ok a =>
    refine ⟨h.1, fun b hb => ?_⟩
    obtain rfl := Except.ok.inj hb
    exact h.2
  | error error => exact ⟨h, fun b hb => by cases hb⟩

theorem answered {result : Except AdkError α} (hF : Kept F) (h : ∀ a, result = .ok a → ∀ leaves, F leaves → R a leaves) :
    Triple faults logId F (answered result) R := by
  cases result with
  | ok a => exact pure hF (h a rfl)
  | error error => exact throw hF

theorem noted {result : Except NoteError α} (hF : Kept F) (h : ∀ a, result = .ok a → ∀ leaves, F leaves → R a leaves) :
    Triple faults logId F (noted result) R := by
  cases result with
  | ok a => exact pure hF (h a rfl)
  | error error => exact throw hF

end Triple

/-! ### Opening a log -/

/-- The rule for reading the hash of a subtree. -/
theorem triple_storedHash {size level index : Nat} (hend : (index + 1) * 2 ^ level ≤ size) :
    Triple faults logId (fun leaves => size ≤ leaves.length) (storedHash logId level index)
      fun hash => HashesOf size [(level, index)] [hash] := by
  have hnds : ∀ node ∈ [(level, index)], (node.2 + 1) * 2 ^ node.1 ≤ size := by
    intro node hnode
    obtain rfl := List.mem_singleton.mp hnode
    exact hend
  refine Triple.bind (R := fun found leaves => size ≤ leaves.length ∧
    ∀ hash, found = some hash → HashesOf size [(level, index)] [hash] leaves) ?_ fun found => ?_
  · refine Triple.perform (kept_length size)
      (fun found => (kept_length size).and fun leaves more h hash hfnd => kept_hashesOf _ _ _ _ _ (h hash hfnd))
      (fun _ _ => trivial) ?_
    intro w found w' hkn hans
    obtain ⟨hinv, hle⟩ := hkn
    obtain ⟨rfl, rfl⟩ := hans
    refine ⟨hle, fun hash hfnd => ⟨hle, hnds, ?_⟩⟩
    have hhash : hash = nodeAt w'.log.leaves level index := by
      unfold MemoryLog.hashAt at hfnd
      by_cases hlev : level = 0
      · subst hlev
        rw [if_pos rfl] at hfnd
        refine (nodeAt_zero ?_).symm
        unfold MemoryLog.leaves
        rw [List.getElem?_map]
        exact hfnd
      · rw [if_neg hlev] at hfnd
        exact (hinv.nodes level index hash hfnd).2.2
    rw [hhash]
    rfl
  · cases found with
    | none => exact Triple.throw ((kept_length size).and fun _ _ _ _ h => by cases h)
    | some hash =>
      refine Triple.pure ((kept_length size).and fun leaves more h hash hfnd => ?_) fun leaves h => h.2 hash rfl
      exact kept_hashesOf _ _ _ _ _ (h hash hfnd)

/-- The rule for reading the hashes of subtrees of the first leaves. -/
theorem triple_storedHashes {size : Nat} (nodes : List (Nat × Nat))
    (hends : ∀ node ∈ nodes, (node.2 + 1) * 2 ^ node.1 ≤ size) :
    Triple faults logId (fun leaves => size ≤ leaves.length) (storedHashes logId nodes) (HashesOf size nodes) := by
  induction nodes with
  | nil => exact Triple.pure (kept_length size) fun leaves h => ⟨h, fun _ hnode => (by cases hnode), rfl⟩
  | cons node nodes ih =>
    refine Triple.bind (triple_storedHash (hends node List.mem_cons_self)) fun hash => ?_
    have hrest := (ih fun node' hnode => hends node' (List.mem_cons_of_mem _ hnode)).frame
      (kept_hashesOf size [node] [hash])
    refine Triple.bind (hrest.weaken fun leaves h => ⟨h.1, h⟩) fun hashes => ?_
    refine Triple.pure ((kept_hashesOf size nodes hashes).and (kept_hashesOf size [node] [hash])) ?_
    rintro leaves ⟨⟨hle, -, rfl⟩, -, -, hhash⟩
    refine ⟨hle, hends, ?_⟩
    rw [List.cons.inj hhash |>.1]
    rfl

theorem triple_readHashes (hF : Kept F) (nodes : List (Nat × Nat)) :
    Triple faults logId F (storedHashes logId nodes) fun _ => F := by
  induction nodes with
  | nil => exact Triple.pure hF fun _ h => h
  | cons node nodes ih =>
    refine Triple.bind (R := fun _ => F) (Triple.bind (R := fun _ => F) (Triple.reads hF fun _ _ => trivial) ?_) ?_
    · intro found
      cases found with
      | none => exact Triple.throw hF
      | some hash => exact Triple.pure hF fun _ h => h
    · intro hash
      exact Triple.bind ih fun hashes => Triple.pure hF fun _ h => h

theorem triple_checkLatest (hF : Kept F) (latest : Option AuditCheckpoint) :
    Triple faults logId F (checkLatest logId latest) fun _ => F := by
  cases latest with
  | none => exact Triple.pure hF fun _ h => h
  | some checkpoint =>
    refine Triple.bind (R := fun _ => F) (Triple.bind (triple_readHashes hF _) fun hashes =>
      Triple.pure hF fun _ h => h) fun root => ?_
    by_cases hroot : root = checkpoint.rootHash
    · rw [if_neg (not_not_intro hroot)]
      exact Triple.pure hF fun _ h => h
    · rw [if_pos hroot]
      exact Triple.throw hF

theorem triple_storedLast (size : Nat) : Triple faults logId (fun leaves => size ≤ leaves.length)
    (storedLast logId size) fun last leaves => size ≤ leaves.length ∧ last = leafBefore leaves size := by
  unfold storedLast
  by_cases hzero : size = 0
  · subst hzero
    rw [if_pos rfl]
    exact Triple.pure (kept_length 0) fun leaves h => ⟨h, rfl⟩
  · rw [if_neg hzero]
    have hend : (size - 1 + 1) * 2 ^ 0 ≤ size := by
      rw [Nat.pow_zero, Nat.mul_one]
      omega
    refine Triple.bind (triple_storedHash hend) fun hash => ?_
    · refine Triple.pure (kept_hashesOf _ _ _) ?_
      rintro leaves ⟨hle, -, hhash⟩
      refine ⟨hle, ?_⟩
      have hlt : size - 1 < leaves.length := by omega
      have hget := List.getElem?_eq_getElem hlt
      unfold leafBefore
      rw [if_neg hzero, (List.cons.inj hhash).1, hget]
      exact congrArg some (nodeAt_zero hget)

/-- **The rule for opening a log**: the writer has the right edge of the leaves that it saw. -/
theorem triple_openLog (origin : Option String) (signer : AuditSigner) (checkpointEvery : Nat)
    (checkpointInterval : Duration) : Triple faults logId (fun _ => True)
      (openLog logId origin signer checkpointEvery checkpointInterval) fun _ _ => True := by
  unfold openLog
  dsimp only
  split
  next => exact Triple.bind (Triple.throw (R := fun _ _ => False) kept_true) fun _ => Triple.none
  next =>
    refine Triple.bind (R := fun size leaves => size ≤ leaves.length) ?_ fun size => ?_
    · refine Triple.perform kept_true kept_length (fun _ _ => trivial) ?_
      intro w size w' hkn hans
      obtain ⟨rfl, rfl⟩ := hans
      exact Nat.le_of_eq (List.length_map _).symm
    -- the hashes that were read are the right edge of the first leaves
    refine Triple.bind (triple_storedHashes (rangeNodes 0 size) fun node hnode =>
      le_of_mem_rangeNodes (aligned_zero size) hnode) fun hashes => ?_
    have hhs := kept_hashesOf size (rangeNodes 0 size) hashes
    refine Triple.bind (((triple_storedLast size).frame hhs).weaken fun leaves h => ⟨h.1, h⟩) fun lastLeaf => ?_
    have hF := (kept_leafBefore size lastLeaf).and hhs
    refine Triple.bind (Triple.reads hF fun _ _ => trivial) fun latest => ?_
    refine Triple.bind (triple_checkLatest hF latest) fun _ => ?_
    refine Triple.bind (Triple.reads hF fun _ _ => trivial) fun now => ?_
    refine Triple.perform hF (fun _ => kept_true) ?_ fun _ _ _ _ _ => trivial
    rintro w ⟨-, ⟨hle, hlast⟩, -, -, hhs⟩
    refine ⟨size, hle, ⟨?_, ?_⟩, hlast⟩
    · show size = (w.log.leaves.take size).length
      rw [List.length_take]
      omega
    · show hashes = _
      have hlen : (w.log.leaves.take size).length = size := by
        rw [List.length_take]
        omega
      have hedge : edgeOf (w.log.leaves.take size ++ w.log.leaves.drop size) size = edgeOf (w.log.leaves.take size) size :=
        edgeOf_append (Nat.le_of_eq hlen.symm)
      rw [List.take_append_drop] at hedge
      rw [hlen, ← hedge]
      exact hhs

/-! ### Appending -/

omit [FloatText] [Base64] in
theorem kept_edge (state : WriterState) : Kept fun leaves => PrefixEdge leaves state := fun _ _ h => h.append

omit [Base64] in
theorem kept_follows (built : Built) : Kept fun leaves => ∃ size ≤ leaves.length, built.Follows logId (leaves.take size) := by
  rintro leaves more ⟨size, hle, hfol⟩
  refine ⟨size, kept_length size leaves more hle, ?_⟩
  rw [List.take_append_of_le_length hle]
  exact hfol

theorem triple_append (built : Built) (state : WriterState) :
    Triple faults logId (fun leaves => ∃ size ≤ leaves.length, built.Follows logId (leaves.take size))
      (perform (.append { logId, entries := built.entries, nodes := built.nodes })) fun range leaves =>
        ∀ r, range = .ok r → PrefixEdge leaves { state with frontier := built.frontier, lastLeaf := built.prev } := by
  refine Triple.perform (kept_follows built) (fun range leaves more h r hr => (h r hr).append) ?_ ?_
  · rintro w ⟨-, size, hle, hfol⟩
    exact ⟨size, hle, hfol.batch⟩
  · intro w range w' hkn hans r hr
    obtain ⟨-, size, hle, hfol⟩ := hkn
    obtain ⟨hrng, hw⟩ := hans
    rcases w.log.append_cases { logId, entries := built.entries, nodes := built.nodes } with
      ⟨error, happ⟩ | ⟨range', log', happ, hents, -, hfst, -⟩
    · rw [hrng, happ] at hr
      cases hr
    · rw [happ] at hw
      have hlvs : w'.log.leaves = w.log.leaves ++ built.entries.map (·.leafHash) := by
        rw [hw]
        exact leaves_appended hents
      obtain rfl := hfol.batch.all hle hfst
      rw [List.take_length] at hfol
      have hlen : w'.log.leaves.length = w.log.leaves.length + built.entries.length := by
        rw [hlvs, List.length_append, List.length_map]
      refine ⟨w'.log.leaves.length, Nat.le_refl _, ?_, ?_⟩
      · rw [List.take_length, hlvs]
        exact hfol.edge
      · rw [hlen, hlvs]
        exact hfol.prev

/-- **The rule for an append**: a writer has the right edge of the first leaves, before it and after. -/
theorem triple_appendLocked (writer : Nat) (state : WriterState) (drafts : List AuditRecordDraft) :
    Triple faults logId (fun leaves => PrefixEdge leaves state) (appendLocked logId writer state drafts)
      fun r leaves => PrefixEdge leaves r.2 := by
  unfold appendLocked
  by_cases hemp : drafts.isEmpty = true
  · rw [if_pos hemp]
    exact Triple.pure (kept_edge state) fun _ h => h
  · rw [if_neg hemp]
    refine Triple.bind (Triple.reads (kept_edge state) fun _ _ => trivial) fun ts => ?_
    refine Triple.bind (Triple.answered (kept_edge state) fun built hbuild leaves h => h.build hbuild) fun built => ?_
    refine Triple.bind (triple_append built state) fun range => ?_
    have hF : Kept fun leaves => ∀ r, range = .ok r →
        PrefixEdge leaves { state with frontier := built.frontier, lastLeaf := built.prev } :=
      fun leaves more h r hr => (h r hr).append
    refine Triple.bind (Triple.answered hF fun r hr leaves h => h r hr) fun _ => ?_
    refine Triple.bind (Triple.reads (kept_edge _) fun w h => h.2) fun _ => ?_
    exact Triple.pure (kept_edge _) fun _ h => h

/-! ### Signing -/

theorem triple_signLines {text : String} (hF : Kept F) (htext : ∀ leaves, F leaves →
    ∃ body : CheckpointBody, asBytes text = asBytes body.toText ∧ PrefixRoot leaves body.size body.rootHash)
    (signers : List AuditSigner) : Triple faults logId F (signLines text signers) fun _ => F := by
  induction signers with
  | nil => exact Triple.pure hF fun _ h => h
  | cons signer signers ih =>
    refine Triple.bind (R := fun _ => F) (Triple.noted hF fun _ _ _ h => h) fun verifier => ?_
    refine Triple.bind (Triple.reads hF fun w h => htext _ h.2) fun answer => ?_
    refine Triple.bind (R := fun _ => F) (Triple.noted hF fun _ _ _ h => h) fun signature => ?_
    exact Triple.bind ih fun lines => Triple.pure hF fun _ h => h

theorem triple_signNote {text : String} (hF : Kept F) (htext : ∀ leaves, F leaves →
    ∃ body : CheckpointBody, asBytes text = asBytes body.toText ∧ PrefixRoot leaves body.size body.rootHash)
    (signers : List AuditSigner) : Triple faults logId F (signNote text signers) fun _ => F := by
  have hlns : Triple faults logId F (signLines text signers >>= fun lines => pure (text ++ "\n" ++ lines)) fun _ => F :=
    Triple.bind (triple_signLines hF htext signers) fun lines => Triple.pure hF fun _ h => h
  unfold signNote
  dsimp only
  split
  next => exact Triple.bind (R := fun _ => F) (Triple.noted hF fun _ _ _ h => h) fun _ => hlns
  next => exact hlns

/-- **The rule for a checkpoint**: it is of the first records. -/
theorem triple_checkpointLocked (writer : Nat) (log : AuditLog) (state : WriterState) (signers : List AuditSigner) :
    Triple faults logId (fun leaves => PrefixEdge leaves state) (checkpointLocked logId writer log state signers)
      fun r leaves => PrefixEdge leaves r.2 := by
  unfold checkpointLocked
  have hF := kept_edge state
  refine Triple.bind (triple_signNote hF (fun leaves h => ⟨_, rfl, h.root⟩) signers) fun note => ?_
  refine Triple.bind (Triple.reads hF fun _ _ => trivial) fun createdAt => ?_
  refine Triple.bind (Triple.reads hF fun w h => h.2.root) fun stored => ?_
  refine Triple.bind (R := fun _ leaves => PrefixEdge leaves state) (Triple.answered hF fun _ _ _ h => h) fun _ => ?_
  refine Triple.bind (Triple.reads hF fun w h => h.2) fun _ => ?_
  exact Triple.pure hF fun _ h => h

theorem triple_intervalElapsed (hF : Kept F) (log : AuditLog) (state : WriterState) :
    Triple faults logId F (intervalElapsed log state) fun _ => F :=
  Triple.bind (Triple.reads hF fun _ _ => trivial) fun _ => Triple.pure hF fun _ h => h

theorem triple_checkpointDue (hF : Kept F) (log : AuditLog) (state : WriterState) :
    Triple faults logId F (checkpointDue log state) fun _ => F := by
  unfold checkpointDue
  split
  next => exact Triple.pure hF fun _ h => h
  next => exact triple_intervalElapsed hF log state

theorem triple_checkpointAfter (writer : Nat) (log : AuditLog) (state : WriterState) (due : Bool) :
    Triple faults logId (fun leaves => PrefixEdge leaves state) (checkpointAfter logId writer log state due)
      fun _ _ => True := by
  unfold checkpointAfter
  split
  next =>
    refine Triple.bind (Triple.attempt (triple_checkpointLocked writer log state [state.signer])) fun result => ?_
    exact Triple.pure (fun leaves more h a ha => (h a ha).append) fun _ _ => trivial
  next => exact Triple.pure (kept_edge state) fun _ _ => trivial

theorem triple_checkpointWhen (writer : Nat) (log : AuditLog) (due : Bool) :
    Triple faults logId (fun leaves => PrefixEdge leaves log.state) (checkpointWhen logId writer log due)
      fun _ _ => True := by
  unfold checkpointWhen
  split
  next =>
    refine Triple.bind (triple_checkpointLocked writer log log.state [log.state.signer]) fun r => ?_
    exact Triple.pure (kept_edge r.2) fun _ _ => trivial
  next => exact Triple.pure (kept_edge log.state) fun _ _ => trivial

/-! ### The calls -/

theorem triple_lock (writer : Nat) : Triple faults logId (fun _ => True) (perform (.lock writer))
    fun log leaves => PrefixEdge leaves log.state := by
  refine Triple.perform kept_true (fun log => kept_edge log.state) (fun _ _ => trivial) ?_
  rintro w log w' ⟨hinv, -⟩ ⟨-, hlog, rfl⟩
  exact hinv.writers log (List.mem_of_getElem? hlog)

theorem triple_guarded {body : AuditLog → AuditProg α} (writer : Nat)
    (hbody : ∀ log, Triple faults logId (fun leaves => PrefixEdge leaves log.state) (body log) fun _ _ => True) :
    Triple faults logId (fun _ => True) (guarded writer body) fun _ _ => True := by
  refine Triple.bind (triple_lock writer) fun log => ?_
  have hatt := (Triple.attempt (hbody log)).mono (S := fun _ _ => True) fun _ _ _ => trivial
  refine Triple.bind hatt fun result => ?_
  refine Triple.bind (Triple.reads kept_true fun _ _ => trivial) fun _ => ?_
  exact Triple.answered kept_true fun _ _ _ h => h

/-- **The rule for a call.** -/
theorem triple_auditProgram (call : AuditCall) :
    Triple faults logId (fun _ => True) (auditProgram logId call) fun _ _ => True := by
  -- a call answers what it computes
  have hans : ∀ {α : Type} {p : AuditProg α} (f : α → AuditAnswer),
      Triple faults logId (fun _ => True) p (fun _ _ => True) →
      Triple faults logId (fun _ => True) (p >>= fun a => pure (f a)) fun _ _ => True :=
    fun f hp => Triple.bind hp fun _ => Triple.pure kept_true fun _ h => h
  have happ : ∀ writer drafts, Triple faults logId (fun _ => True) (appendBatch logId writer drafts) fun _ _ => True := by
    intro writer drafts
    refine triple_guarded writer fun log => ?_
    refine Triple.bind (triple_appendLocked writer log.state drafts) fun r => ?_
    refine Triple.bind (triple_checkpointDue (kept_edge r.2) log r.2) fun due => ?_
    refine Triple.bind (triple_checkpointAfter writer log r.2 due) fun _ => ?_
    exact Triple.pure kept_true fun _ h => h
  cases call with
  | openLog origin signer checkpointEvery checkpointInterval =>
    exact hans _ (triple_openLog origin signer checkpointEvery checkpointInterval)
  | append writer draft => exact hans _ (happ writer [draft])
  | appendBatch writer drafts => exact hans _ (happ writer drafts)
  | checkpoint writer =>
    refine hans _ (triple_guarded writer fun log => ?_)
    refine Triple.bind (triple_checkpointLocked writer log log.state [log.state.signer]) fun r => ?_
    exact Triple.pure (kept_edge r.2) fun _ _ => trivial
  | checkpointIfDue writer =>
    refine hans _ (triple_guarded writer fun log => ?_)
    split
    next => exact Triple.pure (kept_edge log.state) fun _ _ => trivial
    next =>
      refine Triple.bind (triple_intervalElapsed (kept_edge log.state) log log.state) fun due => ?_
      exact triple_checkpointWhen writer log due
  | flush writer => exact hans _ (triple_guarded writer fun log => triple_checkpointWhen writer log _)
  | rotateSigner writer next actor =>
    refine hans _ (triple_guarded writer fun log => ?_)
    refine Triple.bind (triple_appendLocked writer log.state _) fun appended => ?_
    refine Triple.bind (triple_checkpointLocked writer log appended.2 _) fun r => ?_
    refine Triple.bind (Triple.reads (kept_edge r.2) fun w h => h.2) fun _ => ?_
    exact Triple.pure (kept_edge r.2) fun _ _ => trivial
  | prune beforeSeq =>
    refine Triple.bind (Triple.reads kept_true fun _ _ => trivial) fun result => ?_
    exact Triple.bind (Triple.answered (R := fun _ _ => True) kept_true fun _ _ _ h => h) fun count =>
      Triple.pure kept_true fun _ h => h

end Triples

/-! ## What a refused append leaves -/

section LogTriple

variable {faults : AuditFaults} {E : List AuditEntry → Prop}

omit [FloatText] [Sha256] [Base64] in
theorem logTriple_storedHash (level index : Nat) :
    LogTriple (AuditWorld.laws faults logId) AllTaken (storedHash logId level index) AllTaken fun _ => AllTaken := by
  refine LogTriple.bind (logTriple_taken fun _ h => by cases h) fun found => ?_
  cases found with
  | none => exact LogTriple.throw fun _ h => h
  | some hash => exact LogTriple.pure fun _ h => h

omit [FloatText] [Sha256] [Base64] in
theorem logTriple_storedHashes (nodes : List (Nat × Nat)) :
    LogTriple (AuditWorld.laws faults logId) AllTaken (storedHashes logId nodes) AllTaken fun _ => AllTaken := by
  induction nodes with
  | nil => exact LogTriple.pure fun _ h => h
  | cons node nodes ih =>
    refine LogTriple.bind (logTriple_storedHash node.1 node.2) fun hash => ?_
    exact LogTriple.bind ih fun hashes => LogTriple.pure fun _ h => h

omit [FloatText] [Base64] in
theorem logTriple_checkLatest (latest : Option AuditCheckpoint) :
    LogTriple (AuditWorld.laws faults logId) AllTaken (checkLatest logId latest) AllTaken fun _ => AllTaken := by
  cases latest with
  | none => exact LogTriple.pure fun _ h => h
  | some checkpoint =>
    refine LogTriple.bind (R := fun _ => AllTaken)
      (LogTriple.bind (logTriple_storedHashes _) fun hashes => LogTriple.pure fun _ h => h) fun root => ?_
    by_cases hroot : root = checkpoint.rootHash
    · rw [if_neg (not_not_intro hroot)]
      exact LogTriple.pure fun _ h => h
    · rw [if_pos hroot]
      exact LogTriple.throw fun _ h => h

omit [FloatText] [Sha256] [Base64] in
theorem logTriple_storedLast (size : Nat) :
    LogTriple (AuditWorld.laws faults logId) AllTaken (storedLast logId size) AllTaken fun _ => AllTaken := by
  unfold storedLast
  split
  next => exact LogTriple.pure fun _ h => h
  next => exact LogTriple.bind (logTriple_storedHash 0 (size - 1)) fun hash => LogTriple.pure fun _ h => h

omit [FloatText] [Base64] in
theorem logTriple_openLog (origin : Option String) (signer : AuditSigner) (checkpointEvery : Nat)
    (checkpointInterval : Duration) : LogTriple (AuditWorld.laws faults logId) AllTaken
      (openLog logId origin signer checkpointEvery checkpointInterval) AllTaken fun _ => AllTaken := by
  unfold openLog
  dsimp only
  split
  next => exact LogTriple.bind (R := fun _ _ => False) (LogTriple.throw fun _ h => h) fun _ _ h => h.elim
  next =>
    refine LogTriple.bind (logTriple_taken fun _ h => by cases h) fun size => ?_
    refine LogTriple.bind (logTriple_storedHashes _) fun hashes => ?_
    refine LogTriple.bind (logTriple_storedLast size) fun lastLeaf => ?_
    refine LogTriple.bind (logTriple_taken fun _ h => by cases h) fun latest => ?_
    refine LogTriple.bind (logTriple_checkLatest latest) fun _ => ?_
    exact LogTriple.bind (logTriple_taken fun _ h => by cases h) fun now => logTriple_taken fun _ h => by cases h

omit [Base64] in
/-- A refused append is the end of a call that had changed nothing. -/
theorem logTriple_appendLocked (writer : Nat) (state : WriterState) (drafts : List AuditRecordDraft) :
    LogTriple (AuditWorld.laws faults logId) (fun log => AllUnchanged faults logId log ∧ AllTaken log)
      (appendLocked logId writer state drafts) (AllUnchanged faults logId) fun _ => AllTaken := by
  unfold appendLocked
  by_cases hemp : drafts.isEmpty = true
  · rw [if_pos hemp]
    exact LogTriple.pure fun _ h => h.2
  · rw [if_neg hemp]
    refine LogTriple.bind (R := fun _ log => AllUnchanged faults logId log ∧ AllTaken log) ?_ fun ts => ?_
    · refine LogTriple.perform fun log w r w' hlog hr => ⟨forall_concat hlog.1 fun w'' hw => ?_, ?_⟩
      · have hsame : w'' = w := hw
        rw [hsame]
        exact ⟨rfl, rfl⟩
      · exact forall_concat hlog.2 (taken_of_ne fun _ h => by cases h)
    refine LogTriple.bind (R := fun _ log => AllUnchanged faults logId log ∧ AllTaken log)
      (logTriple_result (fun _ _ _ h => h) fun _ _ _ h => h.1) fun built => ?_
    -- what the store refuses it does not change
    refine LogTriple.bind (R := fun range log => (∀ error, range = .error error → AllUnchanged faults logId log) ∧
      ∀ r, range = .ok r → AllTaken log) ?_ fun range => ?_
    · refine LogTriple.perform fun log w range w' hlog hr => ⟨?_, ?_⟩
      · rintro error rfl
        refine forall_concat hlog.1 fun w'' hw => ?_
        obtain ⟨hrng, hwld⟩ := hw
        rcases w.log.append_cases { logId, entries := built.entries, nodes := built.nodes } with
          ⟨error', happ⟩ | ⟨range', log', happ, -⟩
        · rw [happ] at hwld
          rw [hwld]
          exact ⟨rfl, rfl⟩
        · rw [happ] at hrng
          cases hrng
      · rintro range rfl
        refine forall_concat hlog.2 fun w'' batch error heq => ?_
        cases heq
    refine LogTriple.bind (R := fun _ => AllTaken)
      (logTriple_result (fun r hr _ h => h.2 r hr) fun error hr _ h => h.1 error hr) fun _ => ?_
    refine LogTriple.bind (R := fun _ => AllTaken) ?_ fun _ => LogTriple.pure fun _ h => h
    exact LogTriple.perform fun _ _ _ _ hlog _ => forall_concat hlog (taken_of_ne fun _ h => by cases h)

omit [FloatText] in
theorem logTriple_signLines (text : String) (signers : List AuditSigner) :
    LogTriple (AuditWorld.laws faults logId) AllTaken (signLines text signers) AllTaken fun _ => AllTaken := by
  induction signers with
  | nil => exact LogTriple.pure fun _ h => h
  | cons signer signers ih =>
    refine LogTriple.bind logTriple_noted fun verifier => ?_
    refine LogTriple.bind (logTriple_taken fun _ h => by cases h) fun answer => ?_
    refine LogTriple.bind logTriple_noted fun signature => ?_
    exact LogTriple.bind ih fun lines => LogTriple.pure fun _ h => h

omit [FloatText] in
theorem logTriple_signNote (text : String) (signers : List AuditSigner) :
    LogTriple (AuditWorld.laws faults logId) AllTaken (signNote text signers) AllTaken fun _ => AllTaken := by
  have hlns : LogTriple (AuditWorld.laws faults logId) AllTaken
      (signLines text signers >>= fun lines => pure (text ++ "\n" ++ lines)) AllTaken fun _ => AllTaken :=
    LogTriple.bind (logTriple_signLines text signers) fun lines => LogTriple.pure fun _ h => h
  unfold signNote
  dsimp only
  split
  next => exact LogTriple.bind logTriple_noted fun _ => hlns
  next => exact hlns

omit [FloatText] in
theorem logTriple_checkpointLocked (writer : Nat) (log : AuditLog) (state : WriterState) (signers : List AuditSigner) :
    LogTriple (AuditWorld.laws faults logId) AllTaken (checkpointLocked logId writer log state signers) AllTaken fun _ => AllTaken := by
  unfold checkpointLocked
  refine LogTriple.bind (logTriple_signNote _ signers) fun note => ?_
  refine LogTriple.bind (logTriple_taken fun _ h => by cases h) fun createdAt => ?_
  refine LogTriple.bind (logTriple_taken fun _ h => by cases h) fun stored => ?_
  refine LogTriple.bind logTriple_answered fun _ => ?_
  exact LogTriple.bind (logTriple_taken fun _ h => by cases h) fun _ => LogTriple.pure fun _ h => h

omit [FloatText] in
/-- A checkpoint that fails after an append does not fail the append. -/
theorem logTriple_checkpointAfter (writer : Nat) (log : AuditLog) (state : WriterState) (due : Bool) :
    LogTriple (AuditWorld.laws faults logId) AllTaken (checkpointAfter logId writer log state due) E fun _ => AllTaken := by
  unfold checkpointAfter
  split
  next =>
    refine LogTriple.bind (logTriple_checkpointLocked writer log state [state.signer]).attempt fun result => ?_
    cases result with
    | ok a => exact LogTriple.pure fun _ h => h
    | error error => exact LogTriple.pure fun _ h => h
  next => exact LogTriple.pure fun _ h => h

def AuditCall.Appends : AuditCall → Prop
  | .append .. | .appendBatch .. => True
  | _ => False

/-- **What a call leaves when an append of it is refused**: no operation of it had changed anything. -/
theorem logTriple_auditProgram (call : AuditCall) : LogTriple (AuditWorld.laws faults logId) (fun log => log = [])
    (auditProgram logId call) (fun log => AllUnchanged faults logId log ∨ ¬ call.Appends ∧ AllTaken log)
    fun _ => AllTaken := by
  have hans : ∀ {α : Type} {p : AuditProg α} {E : List AuditEntry → Prop} (f : α → AuditAnswer),
      LogTriple (AuditWorld.laws faults logId) (fun log => log = []) p E (fun _ => AllTaken) →
      LogTriple (AuditWorld.laws faults logId) (fun log => log = []) (p >>= fun a => pure (f a)) E fun _ => AllTaken :=
    fun f hp => hp.bind fun _ => LogTriple.pure fun _ h => h
  -- a call that appends nothing
  have hoths : ∀ {α : Type} {body : AuditLog → AuditProg α} (writer : Nat), (∀ log,
      LogTriple (AuditWorld.laws faults logId) AllTaken (body log) AllTaken fun _ => AllTaken) →
      LogTriple (AuditWorld.laws faults logId) (fun log => log = []) (guarded writer body) AllTaken fun _ => AllTaken := by
    intro α body writer hbody
    refine logTriple_guarded writer (fun log entries h => hbody log entries h.2) ?_ ?_
    · exact fun _ _ _ htk h => forall_concat h htk
    · exact fun _ _ _ _ htk h => forall_concat h htk
  have happ : ∀ writer drafts, LogTriple (AuditWorld.laws faults logId) (fun log => log = [])
      (appendBatch logId writer drafts) (AllUnchanged faults logId) fun _ => AllTaken := by
    intro writer drafts
    refine logTriple_guarded writer (fun log => ?_) (fun _ _ hsame _ h => forall_concat h hsame)
      fun _ _ _ _ htk h => forall_concat h htk
    refine LogTriple.bind (logTriple_appendLocked writer log.state drafts) fun r => ?_
    refine LogTriple.bind (logTriple_checkpointDue log r.2) fun due => ?_
    exact LogTriple.bind (logTriple_checkpointAfter writer log r.2 due) fun _ => LogTriple.pure fun _ h => h
  have hwhen : ∀ writer log due, LogTriple (AuditWorld.laws faults logId) AllTaken
      (checkpointWhen logId writer log due) AllTaken fun _ => AllTaken := by
    intro writer log due
    unfold checkpointWhen
    split
    next => exact LogTriple.bind (logTriple_checkpointLocked writer log log.state _) fun r => LogTriple.pure fun _ h => h
    next => exact LogTriple.pure fun _ h => h
  cases call with
  | openLog origin signer checkpointEvery checkpointInterval =>
    refine (hans AuditAnswer.opened fun log hlog => ?_).mono (fun log h => .inr ⟨id, h⟩) fun _ _ h => h
    refine logTriple_openLog origin signer checkpointEvery checkpointInterval log ?_
    subst hlog
    exact fun _ h => by cases h
  | append writer draft => exact (hans _ (happ writer [draft])).mono (fun log h => .inl h) fun _ _ h => h
  | appendBatch writer drafts => exact (hans _ (happ writer drafts)).mono (fun log h => .inl h) fun _ _ h => h
  | checkpoint writer =>
    refine (hans _ (hoths writer fun log => ?_)).mono (fun log h => .inr ⟨id, h⟩) fun _ _ h => h
    exact LogTriple.bind (logTriple_checkpointLocked writer log log.state _) fun r => LogTriple.pure fun _ h => h
  | checkpointIfDue writer =>
    refine (hans _ (hoths writer fun log => ?_)).mono (fun log h => .inr ⟨id, h⟩) fun _ _ h => h
    split
    next => exact LogTriple.pure fun _ h => h
    next => exact LogTriple.bind (logTriple_intervalElapsed log log.state) fun due => hwhen writer log due
  | flush writer =>
    exact (hans _ (hoths writer fun log => hwhen writer log _)).mono (fun log h => .inr ⟨id, h⟩) fun _ _ h => h
  | rotateSigner writer next actor =>
    refine hans _ (logTriple_guarded writer (fun log => ?_) ?_ fun _ _ _ _ htk h => forall_concat h htk)
    · refine LogTriple.bind ((logTriple_appendLocked writer log.state _).mono (fun log h => .inl h) fun _ _ h => h)
        fun appended => ?_
      refine LogTriple.bind ((logTriple_checkpointLocked writer log appended.2 _).mono (fun log h => .inr ⟨id, h⟩)
        fun _ _ h => h) fun r => ?_
      refine LogTriple.bind (R := fun _ => AllTaken) ?_ fun _ => LogTriple.pure fun _ h => h
      exact LogTriple.perform fun _ _ _ _ hlog _ => forall_concat hlog (taken_of_ne fun _ h => by cases h)
    · rintro log entry hsame htk (h | ⟨hcall, h⟩)
      · exact .inl (forall_concat h hsame)
      · exact .inr ⟨hcall, forall_concat h htk⟩
  | prune beforeSeq =>
    have hprune : LogTriple (AuditWorld.laws faults logId) (fun log => log = []) (auditProgram logId (.prune beforeSeq))
        AllTaken fun _ => AllTaken := by
      refine LogTriple.bind (R := fun _ => AllTaken) (LogTriple.perform fun log w r w' hlog _ => ?_) fun result => ?_
      · subst hlog
        exact forall_concat (fun _ h => by cases h) (taken_of_ne fun _ h => by cases h)
      · exact LogTriple.bind logTriple_answered fun count => LogTriple.pure fun _ h => h
    exact hprune.mono (fun log h => .inr ⟨id, h⟩) fun _ _ h => h

end LogTriple

/-! ## Every run -/

section Runs

variable {faults : AuditFaults} {starts : AuditPool → AuditCall → Prop} {s : AuditPool}

omit [Base64] in
theorem logInv_empty : LogInv logId {} where
  chained _ _ h := by cases h
  nodes _ _ _ h := by cases h
  checkpoints _ h := by cases h
  writers _ h := by cases h

/-- **What holds in every run**: the invariant, and of every operation what its call ensures. -/
theorem Reaches.logInv (hrea : Reaches (auditSystem faults logId starts) noAudit s) :
    LogInv logId s.world ∧ ∀ (i : Nat) (proc : AuditProc), s.procs[i]? = some proc →
      proc.rest.Holds (relying (AuditWorld.laws faults logId) (AuditRely logId)) (AuditPre logId) (fun _ _ => True)
        s.world := by
  refine @Reaches.relies _ _ _ _ _ _ _ _ (LogInv logId) (AuditRely logId) (AuditPre logId) (fun _ _ _ => True) hrea rfl
    logInv_empty (fun call w hinv => ?_) (fun op w r w' hinv hpre hr => ?_) ?_
  · exact Prog.Holds.mono (triple_auditProgram call w ⟨hinv, trivial⟩) fun _ _ _ => trivial
  · have hinv' := logInv_answers hinv hpre hr
    exact ⟨hinv', hinv', leaves_answers hr⟩
  · rintro w w' hinv ⟨writer, rfl⟩
    have hinv' : LogInv logId (w.setLocked writer false) := ⟨hinv.chained, hinv.nodes, hinv.checkpoints, hinv.writers⟩
    exact ⟨hinv', hinv', List.prefix_rfl⟩

theorem Reaches.ensured (hrea : Reaches (auditSystem faults logId starts) noAudit s) {i : Nat} {proc : AuditProc}
    (hproc : s.procs[i]? = some proc) {entry : AuditEntry} (hent : entry ∈ proc.log) :
    LogInv logId entry.world ∧ AuditPre logId entry.op entry.world ∧
      ∃ w, (AuditWorld.laws faults logId).answers entry.op entry.world entry.ret w := by
  obtain ⟨before, later, hlog⟩ := List.append_of_mem hent
  refine Reaches.entries (P := fun _ _ entry => LogInv logId entry.world ∧ AuditPre logId entry.op entry.world ∧
    ∃ w, (AuditWorld.laws faults logId).answers entry.op entry.world entry.ret w) hrea rfl ?_ i proc hproc before
      entry later hlog
  intro s' j q op next r w hrea' hq hrest _ hr
  obtain ⟨hinv, hprocs⟩ := Reaches.logInv hrea'
  have hnow := hprocs j q hq
  rw [hrest] at hnow
  exact ⟨hinv, (hnow s'.world .refl).1, w, hr⟩

/-- The leaves when an operation was performed are the first leaves now. -/
theorem Reaches.leavesPrefix (hrea : Reaches (auditSystem faults logId starts) noAudit s) {i : Nat} {proc : AuditProc}
    (hproc : s.procs[i]? = some proc) {entry : AuditEntry} (hent : entry ∈ proc.log) :
    entry.world.log.leaves <+: s.world.log.leaves := by
  have hpast := Reaches.past hrea rfl (fun w => List.prefix_rfl (l := w.log.leaves))
    (fun _ _ _ h h' => h.trans h') (fun _ _ _ _ hr => leaves_answers hr) (fun w w' hmove => ?_) i proc hproc
  · obtain ⟨w, hr, hle⟩ := hpast.here entry hent
    exact (leaves_answers hr).trans hle
  · obtain ⟨writer, rfl⟩ := hmove
    exact List.prefix_rfl

omit [Base64] in
/-- A checkpoint of the first records of a log that has only such ones is stored. -/
theorem putCheckpoint_ok {w : AuditWorld} {checkpoint : AuditCheckpoint} (hinv : LogInv logId w)
    (h : PrefixRoot w.log.leaves checkpoint.size checkpoint.rootHash) : (w.log.putCheckpoint checkpoint).1 = .ok () := by
  rcases w.log.putCheckpoint_cases checkpoint with ⟨error, -, hsize | ⟨stored, hmem, hsize, hroot⟩⟩ | hput
  · have hlen : w.log.leaves.length = w.log.size := List.length_map _
    have hle := h.1
    omega
  · obtain ⟨-, hstd⟩ := hinv.checkpoints stored hmem
    rw [hsize, ← h.2] at hstd
    exact (hroot hstd).elim
  · rw [hput]

def AuditPost (faults : AuditFaults) (logId : String) (call : AuditCall) :
    Except AdkError AuditAnswer → List AuditEntry → Prop
  | .ok _, log => AllTaken log
  | .error _, log => AllUnchanged faults logId log ∨ ¬ call.Appends ∧ AllTaken log

theorem audit_keeps (hrea : Reaches (auditSystem faults logId starts) noAudit s) {i : Nat} {proc : AuditProc}
    (hproc : s.procs[i]? = some proc) :
    Keeps (AuditWorld.laws faults logId) (fun _ _ _ => True) (AuditPost faults logId) proc := by
  apply Reaches.local hrea rfl ?_ i proc hproc
  intro call
  refine Prog.Holds.mono (logTriple_auditProgram call [] rfl) fun result log h => ?_
  cases result with
  | ok answer => exact h
  | error error => exact h

/-- **No run forks the log**, whatever its signers answer and however storing a checkpoint fails besides. -/
theorem Reaches.noFork (hrea : Reaches (auditSystem faults logId starts) noAudit s) : NoFork faults logId s := by
  obtain ⟨hinv, -⟩ := Reaches.logInv hrea
  refine ⟨hinv.chained, hinv.nodes, hinv.writers, ?_, ?_, ?_⟩
  · intro proc hmem w signer message answer hent
    obtain ⟨i, hproc⟩ := List.mem_iff_getElem?.mp hmem
    obtain ⟨-, ⟨body, hmsg, hroot⟩, -⟩ := Reaches.ensured hrea hproc hent
    obtain ⟨more, hlvs⟩ := Reaches.leavesPrefix hrea hproc hent
    refine ⟨body, hmsg, ?_⟩
    rw [← hlvs]
    exact hroot.append
  · intro proc hmem w checkpoint answer hent
    obtain ⟨i, hproc⟩ := List.mem_iff_getElem?.mp hmem
    obtain ⟨hthen, hroot, w', hr⟩ := Reaches.ensured hrea hproc hent
    rcases hr with ⟨hans, -⟩ | ⟨error, href, hans, -⟩
    · rw [putCheckpoint_ok hthen hroot] at hans
      exact .inl hans
    · exact .inr ⟨error, href, hans⟩
  · intro proc hmem hret href
    obtain ⟨i, hproc⟩ := List.mem_iff_getElem?.mp hmem
    obtain ⟨result, hres⟩ := Option.isSome_iff_exists.mp hret
    have hpost := (audit_keeps hrea hproc).returned (Proc.returned_eq hres)
    -- a log where no append was refused
    have htk : AllTaken proc.log → ¬ ∃ w batch error, (⟨w, .append batch, .error error⟩ : AuditEntry) ∈ proc.log := by
      rintro hall ⟨w, batch, error, hent⟩
      exact hall _ hent w batch error rfl
    cases result with
    | ok answer =>
      rcases href with hent | ⟨-, error, herr⟩
      · exact (htk hpost hent).elim
      · rw [hres] at herr
        cases herr
    | error error =>
      rcases hpost with hsame | ⟨hcall, hall⟩
      · exact hsame
      · rcases href with hent | ⟨happends, -⟩
        · exact (htk hall hent).elim
        · refine (hcall ?_).elim
          rcases happends with ⟨writer, draft, hproc⟩ | ⟨writer, drafts, hproc⟩
          · rw [hproc]
            trivial
          · rw [hproc]
            trivial

end Runs

/-- **Concurrent writers do not fork a log** of the in-memory store, whatever their signers answer. -/
theorem noFork_always (signs : AuditSigner → List UInt8 → Except NoteError (List UInt8) → Prop) (logId : String)
    (s : AuditPool) (hreach : Reaches (auditSystem ⟨signs, fun _ => False⟩ logId fun _ _ => True) noAudit s) :
    NoFork ⟨signs, fun _ => False⟩ logId s :=
  Reaches.noFork hreach

def Signed (s : AuditPool) (message : List UInt8) : Prop :=
  ∃ proc ∈ s.procs, ∃ w signer answer, (⟨w, .sign signer message, answer⟩ : AuditEntry) ∈ proc.log

/-- **Every signed checkpoint can be audited, against every other one**: each record below its size has a proof that it
accepts, and a larger one extends it. The proofs are those of the leaves that the log has now. -/
theorem signed_audits (signs : AuditSigner → List UInt8 → Except NoteError (List UInt8) → Prop) (logId : String)
    (s : AuditPool) (hreach : Reaches (auditSystem ⟨signs, fun _ => False⟩ logId fun _ _ => True) noAudit s) :
    ∃ bodyOf : List UInt8 → CheckpointBody, ∀ message, Signed s message →
      message = asBytes (bodyOf message).toText ∧ (bodyOf message).size ≤ s.world.log.leaves.length ∧
      (∀ index leaf, index < (bodyOf message).size → s.world.log.leaves[index]? = some leaf →
        ∃ proof, inclusionProof (s.world.log.leaves.take (bodyOf message).size) index = .ok proof ∧
          verifyInclusion index (bodyOf message).size leaf proof (bodyOf message).rootHash = .ok ()) ∧
      ∀ older, Signed s older → (bodyOf older).size ≤ (bodyOf message).size →
        ∃ proof, consistencyProof (s.world.log.leaves.take (bodyOf message).size) (bodyOf older).size = .ok proof ∧
          verifyConsistency (bodyOf older).size (bodyOf message).size (bodyOf older).rootHash (bodyOf message).rootHash
            proof = .ok () := by
  have hbody : ∀ message, ∃ body : CheckpointBody, Signed s message →
      message = asBytes body.toText ∧ PrefixRoot s.world.log.leaves body.size body.rootHash := by
    intro message
    by_cases hsigned : Signed s message
    · obtain ⟨proc, hmem, w, signer, answer, hent⟩ := hsigned
      obtain ⟨body, hbody⟩ := (Reaches.noFork hreach).signed proc hmem w signer message answer hent
      exact ⟨body, fun _ => hbody⟩
    · exact ⟨⟨"", 0, Merkle.root []⟩, fun h => absurd h hsigned⟩
  choose bodyOf hbodyOf using hbody
  refine ⟨bodyOf, fun message hsigned => ?_⟩
  obtain ⟨hmessage, hle, hroot⟩ := hbodyOf message hsigned
  have hlen : (s.world.log.leaves.take (bodyOf message).size).length = (bodyOf message).size := by
    rw [List.length_take]
    omega
  refine ⟨hmessage, hle, fun index leaf hlt hleaf => ?_, fun older holder hold => ?_⟩
  · have hleaf : (s.world.log.leaves.take (bodyOf message).size)[index]? = some leaf := by
      rwa [List.getElem?_take_of_lt hlt]
    have hproof := verifyInclusion_proof hleaf
    rw [hlen, ← hroot] at hproof
    exact hproof
  · obtain ⟨-, -, hroot'⟩ := hbodyOf older holder
    have hproof := verifyConsistency_proof (hlen.symm ▸ hold)
    rw [hlen, ← hroot, List.take_take, Nat.min_eq_left hold, ← hroot'] at hproof
    exact hproof

end Calls

/-! ## Two writers -/

section TwoWriters

local instance sha256 : Sha256 where
  digest message := ⟨(Sha2.digest message).toArray, Sha2.size_toArray_digest message⟩

local instance base64 : Base64 where
  encode := Radix64.encode
  decode text := match Radix64.decode text with
    | some bytes => .ok bytes
    | none => .error "Invalid symbol"

/-- No record of the run has a float. -/
local instance noFloats : FloatText where
  formatFinite _ := ""

def CanAnswer (s : AuditPool) : AuditOp → Prop
  | .lock writer => s.world.locked writer = false ∧ writer < s.world.writers.length
  | .assign writer _ => writer < s.world.writers.length
  | _ => True

instance (s : AuditPool) (op : AuditOp) : Decidable (CanAnswer s op) := by
  unfold CanAnswer
  cases op <;> infer_instance

/-- Signers that answer anything. -/
def anySigner : AuditFaults := ⟨fun _ _ _ => True, fun _ => False⟩

/-- Calls whose operations wait until they are answered. -/
def twoWriters : System (fun _ : AuditCall => Except AdkError AuditAnswer) AuditOp.Ret AuditWorld :=
  { auditSystem anySigner "log" fun _ _ => True with acts := fun s _ op => CanAnswer s op }

instance (s : AuditPool) (call : AuditCall) : Decidable (twoWriters.starts s call) := inferInstanceAs (Decidable True)

instance (s : AuditPool) (i : Nat) (op : AuditOp) : Decidable (twoWriters.acts s i op) :=
  inferInstanceAs (Decidable (CanAnswer s op))

/-- The answers, at the start of the epoch. -/
def answerAudit : (op : AuditOp) → AuditWorld → op.Ret × AuditWorld
  | .now, w => (0, w)
  | .size, w => (w.log.size, w)
  | .hashAt level index, w => (w.log.hashAt level index, w)
  | .latestCheckpoint, w => (w.log.latestCheckpoint, w)
  | .append batch, w => ((w.log.append batch).1, { w with log := (w.log.append batch).2 })
  | .putCheckpoint checkpoint, w =>
    ((w.log.putCheckpoint checkpoint).1, { w with log := (w.log.putCheckpoint checkpoint).2 })
  | .prune beforeSeq, w => ((w.log.prune "log" beforeSeq).1, { w with log := (w.log.prune "log" beforeSeq).2 })
  | .sign _ _, w => (.ok (List.replicate 64 0), w)
  | .opened log, w => (w.writers.length, { w with writers := w.writers ++ [log] })
  | .lock writer, w => (w.writers.getD writer ⟨"", 1, 0, ⟨{}, none, ⟨"", []⟩, 0, 0⟩⟩, w.setLocked writer true)
  | .assign writer state, w =>
    ((), match w.writers[writer]? with
      | some log => { w with writers := w.writers.set writer { log with state } }
      | none => w)
  | .unlock writer, w => ((), w.setLocked writer false)

theorem answers_answerAudit (s : AuditPool) (i : Nat) (op : AuditOp) (h : twoWriters.acts s i op) :
    twoWriters.laws.answers op s.world (answerAudit op s.world).1 (answerAudit op s.world).2 := by
  cases op with
  | now => rfl
  | putCheckpoint checkpoint => exact .inl ⟨rfl, rfl⟩
  | sign signer message => exact ⟨trivial, rfl⟩
  | unlock writer => rfl
  | lock writer =>
    obtain ⟨hfree, hlt⟩ := h
    refine ⟨hfree, ?_, rfl⟩
    show s.world.writers[writer]? = some (s.world.writers.getD writer _)
    rw [List.getD_eq_getElem?_getD, List.getElem?_eq_getElem hlt]
    rfl
  | assign writer state =>
    have hlt : writer < s.world.writers.length := h
    have hlog := List.getElem?_eq_getElem hlt
    refine ⟨_, hlog, ?_⟩
    show (match s.world.writers[writer]? with
      | some log => { s.world with writers := s.world.writers.set writer { log with state } }
      | none => s.world) = _
    rw [hlog]
  | _ => exact ⟨rfl, rfl⟩

/-- The key of both writers. -/
def auditKey : AuditSigner := ⟨"key", List.replicate 32 1⟩

/-- The first writer has its lock and has read the clock when the second one appends a record and signs a checkpoint. -/
def raced : List (ProcPool.Event AuditCall) := [
  .start (.openLog none auditKey 1 3600), .act 0, .act 0, .act 0, .act 0,
  .start (.openLog none auditKey 1 3600), .act 1, .act 1, .act 1, .act 1,
  .start (.append 0 { kind := .toolCall, action := "read" }), .act 2, .act 2,
  .start (.append 1 { kind := .access, action := "write" }), .act 3, .act 3, .act 3, .act 3, .act 3, .act 3, .act 3,
  .act 3, .act 3, .act 2, .act 2]

def racedWriters : AuditPool := raced.foldl (next twoWriters answerAudit) noAudit

/-- The first writer is refused, and the log has the record and the checkpoint of the second one. -/
theorem noFork_always_raced : NoFork anySigner "log" racedWriters ∧
    (racedWriters.procs.map (fun proc => match proc.returned with
      | some (.ok _) => "ok"
      | some (.error error) => error.code
      | none => ""),
      racedWriters.world.log.leaves.length, racedWriters.world.log.checkpoints.map (·.size)) =
      (["ok", "ok", "audit_log.seq_conflict", "ok"], 1, [1]) := by
  refine ⟨noFork_always (fun _ _ _ => True) "log" racedWriters ?_, by decide +kernel⟩
  exact (reaches_foldl_acts answers_answerAudit noAudit raced).weaken fun _ _ _ _ => trivial

theorem signed_audits_raced : ∃ bodyOf : List UInt8 → CheckpointBody, ∀ message, Signed racedWriters message →
    message = asBytes (bodyOf message).toText ∧ (bodyOf message).size ≤ 1 := by
  obtain ⟨bodyOf, h⟩ := signed_audits (fun _ _ _ => True) "log" racedWriters
    ((reaches_foldl_acts answers_answerAudit noAudit raced).weaken fun _ _ _ _ => trivial)
  have hlen : racedWriters.world.log.leaves.length = 1 := by decide +kernel
  exact ⟨bodyOf, fun message hsigned => ⟨(h message hsigned).1, hlen ▸ (h message hsigned).2.1⟩⟩

end TwoWriters

end SignedAudit

end Adk
