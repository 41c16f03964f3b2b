import AdkRust.SignedAudit.Writer

/-!
# The chain of an audit log

The entries of a log are one chain, its tree nodes are the hashes of complete subtrees, and what a writer has is the
right edge of the first leaves. An append succeeds only at the size of the log, so that a writer's edge is of the whole
log whenever its batch is taken.

* `NoFork`: what holds of a log and its writers in a run.
* `LogInv`: what of it is of one world.
* `logInv_answers`: every operation keeps it when the call ensures `AuditPre` of it.
-/

namespace Adk

namespace SignedAudit

open Merkle ProcPool

/-! ## The property -/

def leafBefore (leaves : List AuditHash) (place : Nat) : Option AuditHash :=
  if place = 0 then none else leaves[place - 1]?

section Property

variable [FloatText] [Sha256] [Base64]

/-- An entry is of a record that is linked to the leaf before it. -/
def Linked (logId : String) (leaves : List AuditHash) (place : Nat) (entry : AuditLogEntry) : Prop :=
  ∃ record text, AuditRecord.canonical record = .ok text ∧ record.logId = logId ∧ record.seq = place ∧
    record.prevHash = leafBefore leaves place ∧ entry.seq = place ∧ entry.leafHash = leafHash (asBytes text) ∧
    (entry.record = some text ∨ entry.record = none)

def PrefixRoot (leaves : List AuditHash) (size : Nat) (root : AuditHash) : Prop :=
  size ≤ leaves.length ∧ root = Merkle.root (leaves.take size)

def PrefixEdge (leaves : List AuditHash) (state : WriterState) : Prop :=
  ∃ size ≤ leaves.length, state.frontier.Describes (leaves.take size) ∧ state.lastLeaf = leafBefore leaves size

/-- What was done neither changes the store nor what a writer has. -/
def Unchanged (entry : AuditEntry) (faults : AuditFaults) (logId : String) : Prop :=
  ∀ w, (AuditWorld.laws faults logId).answers entry.op entry.world entry.ret w →
    w.log = entry.world.log ∧ w.writers = entry.world.writers

/-- A call that appends was refused: by the store, or before it was asked. -/
def Refused (proc : AuditProc) : Prop :=
  (∃ w batch error, (⟨w, .append batch, .error error⟩ : AuditEntry) ∈ proc.log) ∨
    ((∃ writer draft, proc.call = .append writer draft) ∨ ∃ writer drafts, proc.call = .appendBatch writer drafts) ∧
      ∃ error, proc.returned = some (.error error)

/-- **Writers do not fork a log.** -/
structure NoFork (faults : AuditFaults) (logId : String) (s : AuditPool) : Prop where
  /-- The entries are one chain. -/
  chained : ∀ place entry, s.world.log.entries[place]? = some entry → Linked logId s.world.log.leaves place entry
  /-- A stored tree node is the hash of the complete subtree that it names. -/
  nodes : ∀ level index hash, s.world.log.nodes (level, index) = some hash → 0 < level ∧
    (index + 1) * 2 ^ level ≤ s.world.log.leaves.length ∧ hash = nodeAt s.world.log.leaves level index
  writers : ∀ log ∈ s.world.writers, PrefixEdge s.world.log.leaves log.state
  /-- What a writer signs is a checkpoint of the first records. -/
  signed : ∀ proc ∈ s.procs, ∀ w signer message answer, (⟨w, .sign signer message, answer⟩ : AuditEntry) ∈ proc.log →
    ∃ body : CheckpointBody, message = asBytes body.toText ∧ PrefixRoot s.world.log.leaves body.size body.rootHash
  /-- No checkpoint conflicts with another one. -/
  stored : ∀ proc ∈ s.procs, ∀ w checkpoint answer, (⟨w, .putCheckpoint checkpoint, answer⟩ : AuditEntry) ∈ proc.log →
    answer = .ok () ∨ ∃ error, faults.refuses error ∧ answer = .error error
  refused : ∀ proc ∈ s.procs, proc.returned.isSome = true → Refused proc →
    ∀ entry ∈ proc.log, Unchanged entry faults logId

end Property

/-! ## Leaves that are appended -/

variable {logId : String} {leaves more : List AuditHash} {state : WriterState}

theorem leafBefore_append {place : Nat} (h : place ≤ leaves.length) :
    leafBefore (leaves ++ more) place = leafBefore leaves place := by
  unfold leafBefore
  by_cases hzero : place = 0
  · rw [if_pos hzero, if_pos hzero]
  · rw [if_neg hzero, if_neg hzero, List.getElem?_append_left (by omega)]

theorem leaves_appended {log log' : MemoryLog} {batch : AuditAppend} (h : log'.entries = log.entries ++ batch.entries) :
    log'.leaves = log.leaves ++ batch.entries.map (·.leafHash) := by
  unfold MemoryLog.leaves
  rw [h, List.map_append]

theorem leaves_answers {faults : AuditFaults} {op : AuditOp} {w w' : AuditWorld} {r : op.Ret}
    (h : (AuditWorld.laws faults logId).answers op w r w') : w.log.leaves <+: w'.log.leaves := by
  have hsame : w'.log.leaves = w.log.leaves → w.log.leaves <+: w'.log.leaves := by
    intro hlvs
    exact ⟨[], by rw [hlvs, List.append_nil]⟩
  cases op with
  | now =>
    have hw : w' = w := h
    exact hsame (by rw [hw])
  | size => exact hsame (by rw [h.2])
  | hashAt level index => exact hsame (by rw [h.2])
  | latestCheckpoint => exact hsame (by rw [h.2])
  | sign signer message => exact hsame (by rw [h.2])
  | opened log => exact hsame (by rw [h.2])
  | lock writer => exact hsame (by rw [h.2.2]; rfl)
  | assign writer state =>
    obtain ⟨log, -, hw⟩ := h
    exact hsame (by rw [hw])
  | unlock writer =>
    have hw : w' = w.setLocked writer false := h
    exact hsame (by rw [hw]; rfl)
  | append batch =>
    obtain ⟨-, hw⟩ := h
    rcases w.log.append_cases batch with ⟨error, happ⟩ | ⟨range, log', happ, hents, -⟩
    · exact hsame (by rw [hw, happ])
    · rw [hw, happ]
      exact ⟨batch.entries.map (·.leafHash), (leaves_appended hents).symm⟩
  | putCheckpoint checkpoint =>
    rcases h with ⟨-, hw⟩ | ⟨error, -, -, hw⟩
    · rcases w.log.putCheckpoint_cases checkpoint with ⟨error, hput, -⟩ | hput
      · exact hsame (by rw [hw, hput])
      · exact hsame (by rw [hw, hput]; rfl)
    · exact hsame (by rw [hw])
  | prune beforeSeq =>
    obtain ⟨-, hw⟩ := h
    exact hsame (by rw [hw]; exact (w.log.prune_eq logId beforeSeq).1)

/-- What is known stays known when leaves are appended. -/
def Kept (F : List AuditHash → Prop) : Prop := ∀ leaves more, F leaves → F (leaves ++ more)

theorem Kept.and {F G : List AuditHash → Prop} (hF : Kept F) (hG : Kept G) : Kept fun leaves => F leaves ∧ G leaves :=
  fun leaves more h => ⟨hF leaves more h.1, hG leaves more h.2⟩

theorem kept_true : Kept fun _ => True := fun _ _ _ => trivial

theorem kept_length (size : Nat) : Kept fun leaves => size ≤ leaves.length := by
  intro leaves more h
  show size ≤ (leaves ++ more).length
  rw [List.length_append]
  omega

theorem kept_leafBefore (size : Nat) (last : Option AuditHash) :
    Kept fun leaves => size ≤ leaves.length ∧ last = leafBefore leaves size := by
  rintro leaves more ⟨hle, rfl⟩
  exact ⟨kept_length size leaves more hle, (leafBefore_append hle).symm⟩

variable [Sha256]

theorem PrefixRoot.append {size : Nat} {root : AuditHash} (h : PrefixRoot leaves size root) :
    PrefixRoot (leaves ++ more) size root := by
  obtain ⟨hle, hroot⟩ := h
  refine ⟨?_, ?_⟩
  · rw [List.length_append]
    omega
  · rw [List.take_append_of_le_length hle, hroot]

theorem PrefixEdge.append (h : PrefixEdge leaves state) : PrefixEdge (leaves ++ more) state := by
  obtain ⟨size, hle, hedge, hlast⟩ := h
  refine ⟨size, ?_, ?_, ?_⟩
  · rw [List.length_append]
    omega
  · rw [List.take_append_of_le_length hle]
    exact hedge
  · rw [leafBefore_append hle, hlast]

theorem PrefixEdge.root (h : PrefixEdge leaves state) : PrefixRoot leaves state.frontier.size state.frontier.root := by
  obtain ⟨size, hle, hedge, -⟩ := h
  have hsize : state.frontier.size = size := by
    rw [hedge.size, List.length_take]
    omega
  rw [hsize]
  exact ⟨hle, hedge.root⟩

def HashesOf (size : Nat) (nodes : List (Nat × Nat)) (hashes : List AuditHash) (leaves : List AuditHash) : Prop :=
  size ≤ leaves.length ∧ (∀ node ∈ nodes, (node.2 + 1) * 2 ^ node.1 ≤ size) ∧
    hashes = nodes.map fun node => nodeAt leaves node.1 node.2

theorem kept_hashesOf (size : Nat) (nodes : List (Nat × Nat)) (hashes : List AuditHash) :
    Kept (HashesOf size nodes hashes) := by
  rintro leaves more ⟨hle, hends, rfl⟩
  refine ⟨kept_length size leaves more hle, hends, ?_⟩
  apply List.map_congr_left
  intro node hnode
  exact (nodeAt_append (Nat.le_trans (hends node hnode) hle)).symm

variable [FloatText]

theorem Linked.append {place : Nat} {entry : AuditLogEntry} (h : Linked logId leaves place entry)
    (hle : place ≤ leaves.length) : Linked logId (leaves ++ more) place entry := by
  obtain ⟨record, text, htext, hlog, hseq, hprev, hrest⟩ := h
  exact ⟨record, text, htext, hlog, hseq, by rw [leafBefore_append hle, hprev], hrest⟩

/-! ## Batches -/

structure BatchOf (logId : String) (leaves : List AuditHash) (entries : List AuditLogEntry)
    (nodes : List AuditTreeNode) : Prop where
  linked : ∀ place entry, entries[place]? = some entry →
    Linked logId (leaves ++ entries.map (·.leafHash)) (leaves.length + place) entry
  nodes : ∀ node ∈ nodes, 0 < node.level ∧ (node.index + 1) * 2 ^ node.level ≤ leaves.length + entries.length ∧
    node.hash = nodeAt (leaves ++ entries.map (·.leafHash)) node.level node.index

theorem BatchOf.all {log : MemoryLog} {batch : AuditAppend} {size : Nat}
    (h : BatchOf logId (log.leaves.take size) batch.entries batch.nodes) (hle : size ≤ log.leaves.length)
    (hfst : batch.entries.head?.map (·.seq) = some log.size) : size = log.leaves.length := by
  cases hents : batch.entries with
  | nil =>
    rw [hents] at hfst
    cases hfst
  | cons first rest =>
    obtain ⟨-, -, -, -, -, -, hseq, -⟩ := h.linked 0 first (by rw [hents]; rfl)
    rw [hents] at hfst
    have hfst : first.seq = log.size := Option.some.inj hfst
    rw [hseq, List.length_take] at hfst
    have hlen : log.leaves.length = log.size := List.length_map _
    omega

/-- What is in a batch while its records are made. -/
structure Built.Follows (logId : String) (leaves : List AuditHash) (built : Built) : Prop where
  batch : BatchOf logId leaves built.entries built.nodes
  edge : built.frontier.Describes (leaves ++ built.entries.map (·.leafHash))
  prev : built.prev = leafBefore (leaves ++ built.entries.map (·.leafHash)) (leaves.length + built.entries.length)

theorem Built.Follows.add {ts : Utc} {built built' : Built} {draft : AuditRecordDraft}
    (h : built.Follows logId leaves) (hadd : built.add logId ts draft = .ok built') : built'.Follows logId leaves := by
  unfold Built.add at hadd
  dsimp only at hadd
  split at hadd
  next => cases hadd
  next text htext =>
    obtain ⟨hedge, hcomp⟩ := h.edge.push (leafHash (asBytes text))
    have hsize := h.edge.size
    cases hpush : built.frontier.push (leafHash (asBytes text)) with
    | mk frontier completed =>
      rw [hpush] at hadd hedge hcomp
      obtain rfl := Except.ok.inj hadd
      rw [List.length_append, List.length_map] at hsize hcomp
      -- the leaves with the new one
      have hlvs : leaves ++ (built.entries ++ [(⟨(draft.intoRecord logId built.frontier.size ts built.prev).seq,
          leafHash (asBytes text), some text⟩ : AuditLogEntry)]).map (·.leafHash) =
          leaves ++ built.entries.map (·.leafHash) ++ [leafHash (asBytes text)] := by
        rw [List.map_append, List.append_assoc]
        rfl
      refine ⟨⟨fun place entry hent => ?_, fun node hnode => ?_⟩, ?_, ?_⟩
      · rw [hlvs]
        by_cases hlt : place < built.entries.length
        · rw [List.getElem?_append_left hlt] at hent
          refine (h.batch.linked place entry hent).append ?_
          rw [List.length_append, List.length_map]
          omega
        · have hlast := (List.getElem?_eq_some_iff.mp hent).1
          rw [List.length_append, List.length_singleton] at hlast
          obtain rfl : place = built.entries.length := by omega
          rw [List.getElem?_concat_length] at hent
          obtain rfl := Option.some.inj hent
          refine ⟨_, text, htext, rfl, hsize, ?_, hsize, rfl, .inl rfl⟩
          rw [leafBefore_append (by rw [List.length_append, List.length_map])]
          exact h.prev
      · rw [hlvs]
        rw [List.length_append, List.length_singleton]
        rcases List.mem_append.mp hnode with hold | hnew
        · obtain ⟨hlev, hend, hhash⟩ := h.batch.nodes node hold
          refine ⟨hlev, by omega, ?_⟩
          rw [nodeAt_append (by rw [List.length_append, List.length_map]; exact hend)]
          exact hhash
        · obtain ⟨hlev, hend, hhash⟩ := hcomp node hnew
          exact ⟨hlev, by omega, hhash⟩
      · rw [hlvs]
        exact hedge
      · rw [hlvs]
        show some _ = _
        unfold leafBefore
        rw [List.length_append, List.length_singleton, if_neg (by omega)]
        have hpl : leaves.length + (built.entries.length + 1) - 1 =
            (leaves ++ built.entries.map (·.leafHash)).length := by
          rw [List.length_append, List.length_map]
          omega
        rw [hpl, List.getElem?_concat_length]

theorem buildBatch_follows {ts : Utc} {drafts : List AuditRecordDraft} {built built' : Built}
    (h : built.Follows logId leaves) (hbuild : buildBatch logId ts built drafts = .ok built') :
    built'.Follows logId leaves := by
  induction drafts generalizing built with
  | nil =>
    obtain rfl := Except.ok.inj hbuild
    exact h
  | cons draft drafts ih =>
    unfold buildBatch at hbuild
    split at hbuild
    next => cases hbuild
    next added hadd => exact ih (h.add hadd) hbuild

/-- The batch of a writer follows the leaves that it knows. -/
theorem PrefixEdge.build {ts : Utc} {drafts : List AuditRecordDraft} {built : Built} (h : PrefixEdge leaves state)
    (hbuild : buildBatch logId ts { frontier := state.frontier, prev := state.lastLeaf } drafts = .ok built) :
    ∃ size ≤ leaves.length, built.Follows logId (leaves.take size) := by
  obtain ⟨size, hle, hedge, hlast⟩ := h
  refine ⟨size, hle, buildBatch_follows ⟨⟨fun _ _ h => (by cases h), fun _ h => (by cases h)⟩, ?_, ?_⟩ hbuild⟩
  · rw [List.map_nil, List.append_nil]
    exact hedge
  · show state.lastLeaf = leafBefore (leaves.take size ++ []) ((leaves.take size).length + 0)
    have hlen : (leaves.take size).length = size := by
      rw [List.length_take]
      omega
    have hstb := @leafBefore_append (leaves.take size) (leaves.drop size) size (Nat.le_of_eq hlen.symm)
    rw [List.take_append_drop] at hstb
    rw [List.append_nil, Nat.add_zero, hlen, hlast, hstb]

/-! ## What every operation keeps -/

variable [Base64]

/-- What holds of the store and of the writers. -/
structure LogInv (logId : String) (w : AuditWorld) : Prop where
  chained : ∀ place entry, w.log.entries[place]? = some entry → Linked logId w.log.leaves place entry
  nodes : ∀ level index hash, w.log.nodes (level, index) = some hash → 0 < level ∧
    (index + 1) * 2 ^ level ≤ w.log.leaves.length ∧ hash = nodeAt w.log.leaves level index
  checkpoints : ∀ checkpoint ∈ w.log.checkpoints, PrefixRoot w.log.leaves checkpoint.size checkpoint.rootHash
  writers : ∀ log ∈ w.writers, PrefixEdge w.log.leaves log.state

/-- What a call ensures of an operation that it performs. -/
def AuditPre (logId : String) : AuditOp → AuditWorld → Prop
  | .append batch, w => ∃ size ≤ w.log.leaves.length, BatchOf logId (w.log.leaves.take size) batch.entries batch.nodes
  | .putCheckpoint checkpoint, w => PrefixRoot w.log.leaves checkpoint.size checkpoint.rootHash
  | .sign _ message, w =>
    ∃ body : CheckpointBody, message = asBytes body.toText ∧ PrefixRoot w.log.leaves body.size body.rootHash
  | .opened log, w => PrefixEdge w.log.leaves log.state
  | .assign _ state, w => PrefixEdge w.log.leaves state
  | _, _ => True

/-- **Every operation keeps what its call ensures**: what holds of the store and of the writers. -/
theorem logInv_answers {faults : AuditFaults} {op : AuditOp} {w w' : AuditWorld} {r : op.Ret} (hinv : LogInv logId w)
    (hpre : AuditPre logId op w) (h : (AuditWorld.laws faults logId).answers op w r w') : LogInv logId w' := by
  have hsame : w'.log = w.log → w'.writers = w.writers → LogInv logId w' := by
    intro hlog hwriters
    refine ⟨?_, ?_, ?_, ?_⟩
    · rw [hlog]
      exact hinv.chained
    · rw [hlog]
      exact hinv.nodes
    · rw [hlog]
      exact hinv.checkpoints
    · rw [hlog, hwriters]
      exact hinv.writers
  -- a writer's state that is of the first leaves
  have hwriters : w'.log = w.log → (∀ log ∈ w'.writers, log ∈ w.writers ∨ PrefixEdge w.log.leaves log.state) →
      LogInv logId w' := by
    intro hlog hkn
    refine ⟨?_, ?_, ?_, fun log hmem => ?_⟩
    · rw [hlog]
      exact hinv.chained
    · rw [hlog]
      exact hinv.nodes
    · rw [hlog]
      exact hinv.checkpoints
    · rw [hlog]
      exact (hkn log hmem).elim (hinv.writers log) id
  cases op with
  | now =>
    have hw : w' = w := h
    rw [hw]
    exact hinv
  | size =>
    rw [h.2]
    exact hinv
  | hashAt level index =>
    rw [h.2]
    exact hinv
  | latestCheckpoint =>
    rw [h.2]
    exact hinv
  | sign signer message =>
    rw [h.2]
    exact hinv
  | lock writer => exact hsame (by rw [h.2.2]; rfl) (by rw [h.2.2]; rfl)
  | unlock writer =>
    have hw : w' = w.setLocked writer false := h
    exact hsame (by rw [hw]; rfl) (by rw [hw]; rfl)
  | opened log =>
    obtain ⟨-, hw⟩ := h
    refine hwriters (by rw [hw]) fun log' hmem => ?_
    rw [hw] at hmem
    rcases List.mem_append.mp hmem with hmem | hmem
    · exact .inl hmem
    · obtain rfl := List.mem_singleton.mp hmem
      exact .inr hpre
  | assign writer state =>
    obtain ⟨log, -, hw⟩ := h
    refine hwriters (by rw [hw]) fun log' hmem => ?_
    rw [hw] at hmem
    rcases List.mem_or_eq_of_mem_set hmem with hmem | rfl
    · exact .inl hmem
    · exact .inr hpre
  | append batch =>
    obtain ⟨-, hw⟩ := h
    rcases w.log.append_cases batch with ⟨error, happ⟩ |
      ⟨range, log', happ, hents, hcheckpoints, hfst, hnds⟩
    · exact hsame (by rw [hw, happ]) (by rw [hw])
    · rw [happ] at hw
      have hlog : w'.log = log' := by rw [hw]
      have hlvs : w'.log.leaves = w.log.leaves ++ batch.entries.map (·.leafHash) := by
        rw [hlog]
        exact leaves_appended hents
      -- the batch follows all leaves
      obtain ⟨size, hle, hbat⟩ := hpre
      obtain rfl := hbat.all hle hfst
      rw [List.take_length] at hbat
      have hsize : w.log.leaves.length = w.log.entries.length := List.length_map _
      refine ⟨fun place entry hent => ?_, fun level index hash hhash => ?_, fun checkpoint hmem => ?_,
        fun log hmem => ?_⟩
      · rw [hlog, hents] at hent
        rw [hlvs]
        by_cases hlt : place < w.log.entries.length
        · rw [List.getElem?_append_left hlt] at hent
          exact (hinv.chained place entry hent).append (by omega)
        · rw [List.getElem?_append_right (by omega)] at hent
          have hlinked := hbat.linked _ entry hent
          rw [hsize, Nat.add_sub_cancel' (by omega)] at hlinked
          exact hlinked
      · rw [hlog] at hhash
        rw [hlvs, List.length_append, List.length_map]
        rcases hnds _ hash hhash with hold | ⟨node, hmem, hpl, rfl⟩
        · obtain ⟨hlev, hend, hhash⟩ := hinv.nodes level index hash hold
          refine ⟨hlev, by omega, ?_⟩
          rw [nodeAt_append hend]
          exact hhash
        · obtain ⟨rfl, rfl⟩ := Prod.mk.inj hpl
          exact hbat.nodes node hmem
      · rw [hlog, hcheckpoints] at hmem
        rw [hlvs]
        exact (hinv.checkpoints checkpoint hmem).append
      · rw [hw] at hmem
        rw [hlvs]
        exact (hinv.writers log hmem).append
  | putCheckpoint checkpoint =>
    rcases h with ⟨-, hw⟩ | ⟨error, -, -, hw⟩
    · rcases w.log.putCheckpoint_cases checkpoint with ⟨error, hput, -⟩ | hput
      · exact hsame (by rw [hw, hput]) (by rw [hw])
      · rw [hput] at hw
        rw [hw]
        refine ⟨hinv.chained, hinv.nodes, fun other hmem => ?_, hinv.writers⟩
        rcases mem_insertCheckpoint hmem with rfl | hmem
        · exact hpre
        · exact hinv.checkpoints other hmem
    · rw [hw]
      exact hinv
  | prune beforeSeq =>
    obtain ⟨-, hw⟩ := h
    obtain ⟨hlvs, hnds, hcheckpoints, hents⟩ := w.log.prune_eq logId beforeSeq
    rw [hw]
    refine ⟨fun place entry hent => ?_, ?_, ?_, ?_⟩
    · show Linked logId (w.log.prune logId beforeSeq).2.leaves place entry
      rw [hlvs]
      obtain ⟨old, hold, hsame⟩ := hents place entry hent
      have hlinked := hinv.chained place old hold
      rcases hsame with rfl | rfl
      · exact hlinked
      · obtain ⟨record, text, htext, hlogId, hseq, hprev, hentrySeq, hhash, -⟩ := hlinked
        exact ⟨record, text, htext, hlogId, hseq, hprev, hentrySeq, hhash, .inr rfl⟩
    · show ∀ level index hash, (w.log.prune logId beforeSeq).2.nodes (level, index) = some hash → _
      rw [hnds, hlvs]
      exact hinv.nodes
    · show ∀ checkpoint ∈ (w.log.prune logId beforeSeq).2.checkpoints, _
      rw [hcheckpoints, hlvs]
      exact hinv.checkpoints
    · show ∀ log ∈ w.writers, PrefixEdge (w.log.prune logId beforeSeq).2.leaves log.state
      rw [hlvs]
      exact hinv.writers

end SignedAudit

end Adk
