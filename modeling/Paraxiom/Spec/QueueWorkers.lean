import Paraxiom.ForStd.Tiling
import Paraxiom.Spec.QueueRefinement

/-!
# Workers consume every message exactly once

Any number of workers of the owner of a name read its queue at snapshots of their own and
submit a rollup each: replies to the messages from the head they read up to some later
index, a head move to that index, and a condition that the head is still the one they
read. `workers_consume_exactly_once` says that the ranges of the accepted workers lie end
to end from 0 to the head of the queue.

The head entry only ever holds encodings of indices below 2^32, or nothing for 0, so two
equal head entries stand for the same head: a worker cannot be fooled by a head that has
moved on and come back.
-/

namespace Paraxiom.Anchor

open Scale KvStore Transactional

/-! ## Worker submissions -/

/-- A worker's submission: what it read at its snapshot, the messages it replies to, and
    the transaction it sends. -/
structure Worker (cfg : Config) (AccountId : Type) where
  origin : Origin AccountId
  nonce : U128
  snapshot : Store
  /-- The head and the tail it read, and the index up to which it read messages. -/
  head : UInt32
  tail : UInt32
  newHead : UInt32
  head_read : readIndex (snapshot (slot cfg headIndex)) = some head
  tail_read : readIndex (snapshot (slot cfg tailIndex)) = some tail
  head_lt : head < newHead
  le_tail : newHead ≤ tail
  /-- The replies, each with the id of the message it answers. -/
  replies : List (UInt32 × ActionBytes)
  replies_iff : ∀ i, i ∈ replies.map Prod.fst ↔ head ≤ i ∧ i < newHead
  tx : RollupTx
  cond_mem : Cond.eq (slot cfg headIndex) (snapshot (slot cfg headIndex)) ∈ tx.conds
  actions_perm : (tx.actions.map decodeAction).Perm
    (replies.map (fun r => some (.reply r.2)) ++ [some (.setQueueHead newHead)])
  updates_avoid : AvoidsQueue cfg tx.updates

/-- A step of a run in which every rollup on `name` comes from a worker. -/
inductive WorkerStep (cfg : Config) (name : H256) (AccountId : Type) where
  | claimName (origin : Origin AccountId) (n : H256)
  | pushMessage (n : H256) (data : ValueBytes)
  | elsewhere (origin : Origin AccountId) (n : H256) (tx : RollupTx) (nonce : U128) (h : n ≠ name)
  | submit (w : Worker cfg AccountId)

variable {AccountId R : Type} {cfg : Config} {name : H256}

/-- The operation that a step submits. -/
def WorkerStep.op : WorkerStep cfg name AccountId → Op AccountId
  | claimName origin n => .claimName origin n
  | pushMessage n data => .pushMessage n data
  | elsewhere origin n tx nonce _ => .rollup origin n tx nonce
  | submit w => .rollup w.origin name w.tx w.nonce

/-- The half-open range of messages that a worker consumes. -/
def Worker.range (w : Worker cfg AccountId) : Nat × Nat := (w.head.toNat, w.newHead.toNat)

theorem headAfter_eq_foldl (c : Nat) (actions : List ActionBytes) :
    headAfter c actions = (actions.filterMap setHeadOf).foldl (fun _ i => i.toNat) c := by
  induction actions generalizing c with
  | nil => rfl
  | cons raw actions ih =>
    rw [headAfter, List.foldl_cons, ← headAfter, ih, List.filterMap_cons, setHeadOf]
    rcases decodeAction raw with _ | ⟨data⟩ | ⟨index⟩ <;> rfl

/-- The head that a decoded action asks for. -/
private def newHeadOf : Option Action → Option UInt32
  | some (.setQueueHead index) => some index
  | _ => none

/-- Whatever the order of its actions, a worker leaves the head at its new head. -/
theorem Worker.headAfter_actions (w : Worker cfg AccountId) (c : Nat) :
    headAfter c w.tx.actions = w.newHead.toNat := by
  -- of the actions, in whatever order, one asks for a head
  have hperm := w.actions_perm.filterMap newHeadOf
  simp only [List.filterMap_map, List.filterMap_append, List.filterMap_cons,
    List.filterMap_nil] at hperm
  have hnone : w.replies.filterMap (newHeadOf ∘ fun r => some (.reply r.2)) = [] :=
    List.filterMap_eq_nil_iff.mpr fun _ _ => rfl
  rw [hnone, List.nil_append] at hperm
  rw [headAfter_eq_foldl, show w.tx.actions.filterMap setHeadOf = [w.newHead] from
    List.perm_singleton.mp hperm]
  rfl

/-! ## Runs of workers -/

variable [DecidableEq AccountId]

section Runs

variable (cfg) (onResponse : OnResponse AccountId R)

/-- The workers whose rollups were accepted, in order. -/
def acceptedWorkers : State AccountId × R → List (WorkerStep cfg name AccountId) →
    List (Worker cfg AccountId)
  | _, [] => []
  | s, c :: cs =>
    let later := acceptedWorkers (step (apply cfg onResponse) s c.op) cs
    match c, apply cfg onResponse c.op s with
    | .submit w, .ok _ => w :: later
    | _, _ => later

/-- Every worker took its snapshot of the store in a state that the run had reached. -/
def SnapshotsFromRun (s₀ : State AccountId × R) (steps : List (WorkerStep cfg name AccountId)) :
    Prop :=
  ∀ before w after, steps = before ++ .submit w :: after → ∃ earlier, earlier <+: before ∧
    w.snapshot = (run (apply cfg onResponse) s₀ (earlier.map WorkerStep.op)).1.states name

end Runs

variable {onResponse : OnResponse AccountId R}

theorem acceptedWorkers_append (s : State AccountId × R)
    (cs cs' : List (WorkerStep cfg name AccountId)) :
    acceptedWorkers cfg onResponse s (cs ++ cs') = acceptedWorkers cfg onResponse s cs ++
      acceptedWorkers cfg onResponse (run (apply cfg onResponse) s (cs.map WorkerStep.op)) cs' := by
  induction cs generalizing s with
  | nil => rfl
  | cons c cs ih =>
    simp only [List.cons_append, acceptedWorkers, List.map_cons, run_cons, ih]
    split <;> rfl

theorem mem_acceptedWorkers {s : State AccountId × R} {cs : List (WorkerStep cfg name AccountId)}
    {w : Worker cfg AccountId} (h : w ∈ acceptedWorkers cfg onResponse s cs) :
    ∃ before after, cs = before ++ .submit w :: after := by
  induction cs generalizing s with
  | nil => exact nomatch h
  | cons c cs ih =>
    unfold acceptedWorkers at h
    split at h
    · rename_i w' _ _
      rcases List.mem_cons.mp h with rfl | h
      · exact ⟨[], cs, rfl⟩
      · obtain ⟨before, after, rfl⟩ := ih h
        exact ⟨.submit w' :: before, after, rfl⟩
    · obtain ⟨before, after, rfl⟩ := ih h
      exact ⟨_ :: before, after, rfl⟩

/-- The rollups of a worker run leave the queue's keys alone. -/
theorem leavesQueueAlone_of_workers (s : State AccountId × R)
    (steps : List (WorkerStep cfg name AccountId)) :
    ∀ e ∈ history (apply cfg onResponse) s (steps.map WorkerStep.op),
      LeavesQueueAlone cfg name e := by
  refine leavesQueueAlone_of_ops fun origin tx nonce hmem => ?_
  obtain ⟨c, _, hop⟩ := List.mem_map.mp hmem
  cases c with
  | claimName _ _ => exact nomatch hop
  | pushMessage _ _ => exact nomatch hop
  | elsewhere _ n _ _ hne => exact absurd (Op.rollup.inj hop).2.1 hne
  | submit w =>
    obtain ⟨_, _, rfl, _⟩ := Op.rollup.inj hop
    exact w.updates_avoid

omit [DecidableEq AccountId] in
/-- What a worker read at a snapshot that represents a queue: its head is the head of
    that queue, and the messages in its range are messages of that queue. -/
theorem Worker.read_snapshot (w : Worker cfg AccountId)
    {q : BoundedFifo ValueBytes cfg.queueCapacity.toNat} (h : Represents cfg w.snapshot q)
    (hlt : q.pushed.length < 2 ^ 32) : w.head.toNat = q.consumed ∧
      ∀ i, w.head ≤ i → i < w.newHead → ∃ m, w.snapshot (slot cfg i) = some m ∧
        q.pushed[i.toNat]? = some m := by
  have hhead : w.head.toNat = q.consumed := by
    rw [Option.some.inj (w.head_read.symm.trans h.head.read)]
    exact UInt32.toNat_ofNat_of_lt' (Nat.lt_of_le_of_lt q.consumed_le hlt)
  have htail : w.tail.toNat = q.pushed.length := by
    rw [Option.some.inj (w.tail_read.symm.trans h.tail.read)]
    exact UInt32.toNat_ofNat_of_lt' hlt
  refine ⟨hhead, fun i hlo hhi => ?_⟩
  have hlo := UInt32.le_iff_toNat_le.mp hlo
  have hhi := UInt32.lt_iff_toNat_lt.mp hhi
  have hle := UInt32.le_iff_toNat_le.mp w.le_tail
  obtain ⟨m, hm⟩ : ∃ m, q.pushed[i.toNat]? = some m :=
    ⟨_, List.getElem?_eq_getElem (by omega)⟩
  exact ⟨m, by rw [h.entry i, BoundedFifo.peek_eq_some_iff.mpr ⟨by omega, hm⟩], hm⟩

/-- The condition on the head entry makes an accepted worker's head the current one. -/
theorem Worker.head_of_accepted (w : Worker cfg AccountId) {s s' : State AccountId × R}
    {q : BoundedFifo ValueBytes cfg.queueCapacity.toNat}
    (h : Represents cfg (s.1.states name) q) (hlt : q.pushed.length < 2 ^ 32)
    (hok : rollup cfg onResponse w.origin name w.tx w.nonce s = .ok s') :
    w.head.toNat = q.consumed := by
  obtain ⟨_, _, _, hconds, _⟩ := rollup_eq_ok.mp hok
  -- equal entries are read as equal heads, an absent one like an encoded 0
  have hentry : s.1.states name (slot cfg headIndex) = w.snapshot (slot cfg headIndex) :=
    hconds _ w.cond_mem
  have hread := h.head.read
  rw [hentry, w.head_read] at hread
  rw [Option.some.inj hread]
  exact UInt32.toNat_ofNat_of_lt' (Nat.lt_of_le_of_lt q.consumed_le hlt)

/-- The ranges of the accepted workers lie end to end from 0 to the head of the queue. -/
theorem acceptedWorkers_tiles (hroom : cfg.HasRoom) (r₀ : R)
    (steps : List (WorkerStep cfg name AccountId))
    (hcount : (pushedIn name (history (apply cfg onResponse) (genesis, r₀)
      (steps.map WorkerStep.op))).length < 2 ^ 32) :
    Tiles 0 ((acceptedWorkers cfg onResponse (genesis, r₀) steps).map Worker.range)
      (consumedIn name (history (apply cfg onResponse) (genesis, r₀)
        (steps.map WorkerStep.op))) := by
  induction steps using List.reverseRecOn with
  | nil => exact .nil 0
  | append_singleton steps c ih =>
    rw [List.map_append, List.map_singleton, history_concat] at hcount ⊢
    rw [pushedIn_concat, List.length_append] at hcount
    have hcount' : (pushedIn name (history (apply cfg onResponse) (genesis, r₀)
        (steps.map WorkerStep.op))).length < 2 ^ 32 := by omega
    have ih := ih hcount'
    obtain ⟨q, hp, hc, hq⟩ := represents_of_run hroom r₀ name (steps.map WorkerStep.op)
      (leavesQueueAlone_of_workers _ steps) hcount'
    rw [acceptedWorkers_append, List.map_append, consumedIn_concat]
    generalize run (apply cfg onResponse) (genesis, r₀) (steps.map WorkerStep.op) = s at hq ⊢
    cases hres : apply cfg onResponse c.op s with
    | error f =>
      -- neither side grows with an operation that fails
      have hnr := rollupOf_of_error name (event_result_eq_error.mpr hres)
      simpa [acceptedWorkers, hres, hnr] using ih
    | ok p =>
      obtain ⟨a, s'⟩ := p
      have he : (event (apply cfg onResponse) s c.op).result = .ok a :=
        event_result_eq_ok.mpr (by rw [hres, step_of_ok hres])
      cases c with
      | claimName origin n => simpa [acceptedWorkers, rollupOf, WorkerStep.op] using ih
      | pushMessage n data => simpa [acceptedWorkers, rollupOf, WorkerStep.op] using ih
      | elsewhere origin n tx nonce hne =>
        have hnr := (rollupOf_of_ok name he rfl).trans (if_neg hne)
        simpa [acceptedWorkers, hnr] using ih
      | submit w =>
        -- the range starts at the head of the queue, where the ranges so far end
        have hroll := (rollupOf_of_ok name he rfl).trans (if_pos rfl)
        obtain ⟨_, hok⟩ := apply_rollup_eq_ok.mp hres
        have hhead := w.head_of_accepted hq (hp ▸ hcount') hok
        have hlt := UInt32.lt_iff_toNat_lt.mp w.head_lt
        simp only [acceptedWorkers, hres, hroll, Option.map_some, Option.getD_some,
          w.headAfter_actions, List.map_cons, List.map_nil, Worker.range]
        rw [hhead, hc]
        exact ih.concat (by omega)

private theorem length_filter_le_one {α : Type} {p : α → Bool} {l : List α}
    (h : l.Pairwise fun a b => ¬(p a ∧ p b)) : (l.filter p).length ≤ 1 := by
  induction h with
  | nil => simp
  | @cons a l ha _ ih =>
    by_cases hpa : p a
    · -- no later element passes as well
      have hnil : l.filter p = [] := List.filter_eq_nil_iff.mpr fun b hb hpb => ha b hb ⟨hpa, hpb⟩
      rw [List.filter_cons_of_pos hpa, hnil, List.length_singleton]
    · rw [List.filter_cons_of_neg hpa]
      exact ih

/-- Concurrent workers consume every message exactly once. In any run from genesis in
    which every rollup on the name comes from a worker that read the store in some earlier
    state, and fewer than 2^32 messages are pushed to the name: the ranges of the accepted
    workers are disjoint, each starts where the one before it ended, and together they are
    the messages below the head of the queue; at most one accepted worker replies to a
    message, and what it read is what was pushed under that id. -/
theorem workers_consume_exactly_once (cfg : Config) (hroom : cfg.HasRoom)
    (onResponse : OnResponse AccountId R) (r₀ : R) (name : H256)
    (steps : List (WorkerStep cfg name AccountId))
    (hsnap : SnapshotsFromRun cfg onResponse (genesis, r₀) steps)
    (hcount : (pushedIn name (history (apply cfg onResponse) (genesis, r₀)
      (steps.map WorkerStep.op))).length < 2 ^ 32) :
    let past := history (apply cfg onResponse) (genesis, r₀) (steps.map WorkerStep.op)
    let s := run (apply cfg onResponse) (genesis, r₀) (steps.map WorkerStep.op)
    let ws := acceptedWorkers cfg onResponse (genesis, r₀) steps
    ∃ c : UInt32, (queueHead cfg name s.1 : Exec DispatchError UInt32) = .ok c ∧
      ws.Pairwise (fun w w' => w.newHead ≤ w'.head) ∧
      ws.IsChain (fun w w' => w.newHead = w'.head) ∧
      (∀ i, (∃ w ∈ ws, w.head ≤ i ∧ i < w.newHead) ↔ i < c) ∧
      (∀ i, (ws.filter fun w => i ∈ w.replies.map Prod.fst).length ≤ 1) ∧
      ∀ w ∈ ws, ∀ i, w.head ≤ i → i < w.newHead → ∃ m, w.snapshot (slot cfg i) = some m ∧
        ∀ m', (∃ e ∈ past, e.op = .pushMessage name m' ∧ e.result = .ok (.pushed i)) ↔ m' = m := by
  intro past s ws
  have havoid : ∀ e ∈ past, LeavesQueueAlone cfg name e :=
    leavesQueueAlone_of_workers (genesis, r₀) steps
  obtain ⟨q, hp, hc, hq⟩ := represents_of_run hroom r₀ name (steps.map WorkerStep.op) havoid hcount
  have hlt : q.pushed.length < 2 ^ 32 := hp ▸ hcount
  have htiles := acceptedWorkers_tiles hroom r₀ steps hcount
  have hpair : ws.Pairwise fun w w' => w.newHead ≤ w'.head :=
    (List.pairwise_map.mp htiles.pairwise).imp fun h => UInt32.le_iff_toNat_le.mpr h
  have hcons : (UInt32.ofNat q.consumed).toNat = q.consumed :=
    UInt32.toNat_ofNat_of_lt' (Nat.lt_of_le_of_lt q.consumed_le hlt)
  refine ⟨UInt32.ofNat q.consumed, (hq.implements hroom hlt).head, hpair, ?_, fun i => ?_,
    fun i => ?_, fun w hw i hlo hhi => ?_⟩
  · exact ((List.isChain_map _).mp htiles.isChain).imp fun _ _ h => UInt32.toNat_inj.mp h
  · have hmem := htiles.mem_iff i.toNat
    rw [← hc, ← hcons] at hmem
    simp only [List.mem_map, exists_exists_and_eq_and, Worker.range, Nat.zero_le, true_and,
      ← UInt32.le_iff_toNat_le, ← UInt32.lt_iff_toNat_lt] at hmem
    exact hmem
  · -- ranges that lie end to end share no message
    refine length_filter_le_one (hpair.imp ?_)
    rintro w w' hle ⟨hi, hi'⟩
    have hi := (w.replies_iff i).mp (of_decide_eq_true hi)
    have hi' := (w'.replies_iff i).mp (of_decide_eq_true hi')
    exact absurd (UInt32.lt_of_lt_of_le hi.2 (UInt32.le_trans hle hi'.1)) (UInt32.lt_irrefl i)
  · -- the snapshot is an earlier state of the same queue
    obtain ⟨before, after, hsplit⟩ := mem_acceptedWorkers hw
    obtain ⟨earlier, ⟨later, hearlier⟩, hstore⟩ := hsnap before w after hsplit
    -- what was pushed by then is the start of what is pushed in the end
    have hpushed : pushedIn name past = pushedIn name (history (apply cfg onResponse)
        (genesis, r₀) (earlier.map WorkerStep.op)) ++ pushedIn name (history (apply cfg onResponse)
        (run (apply cfg onResponse) (genesis, r₀) (earlier.map WorkerStep.op))
        ((later ++ .submit w :: after).map WorkerStep.op)) := by
      rw [pushedIn, pushedIn, pushedIn, ← List.filterMap_append, ← history_append,
        ← List.map_append, ← List.append_assoc, hearlier, ← hsplit]
    have hcount' : (pushedIn name (history (apply cfg onResponse) (genesis, r₀)
        (earlier.map WorkerStep.op))).length < 2 ^ 32 := by
      have : (pushedIn name past).length < 2 ^ 32 := hcount
      rw [hpushed, List.length_append] at this
      omega
    obtain ⟨qe, hpe, _, hqe⟩ := represents_of_run hroom r₀ name (earlier.map WorkerStep.op)
      (leavesQueueAlone_of_workers _ earlier) hcount'
    rw [← hstore] at hqe
    obtain ⟨m, hread, hm⟩ := (w.read_snapshot hqe (hpe ▸ hcount')).2 i hlo hhi
    have hm' : (pushedIn name past)[i.toNat]? = some m := by
      obtain ⟨hi, _⟩ := List.getElem?_eq_some_iff.mp hm
      rw [hpushed, List.getElem?_append_left (hpe ▸ hi), ← hpe, hm]
    refine ⟨m, hread, fun m' => ?_⟩
    rw [← pushedIn_getElem?_eq_some hroom r₀ name _ havoid hcount, hm', Option.some.injEq]
    exact eq_comm

/-- The store of `sampleName` after one push. -/
def sampleSnapshot : Store :=
  (run (apply sampleConfig OnResponse.unit) (genesis, ()) (sampleOps.take 2)).1.states sampleName

/-- A worker that replies to message 0. -/
def sampleWorker : Worker sampleConfig Nat where
  origin := .signed 0
  nonce := 0
  snapshot := sampleSnapshot
  head := 0
  tail := 1
  newHead := 1
  head_read := by decide +kernel
  tail_read := by decide +kernel
  head_lt := by decide
  le_tail := by decide
  replies := [(0, ⟨[9], by decide⟩)]
  replies_iff i := by
    rw [List.map_singleton, List.mem_singleton, UInt32.le_iff_toNat_le, UInt32.lt_iff_toNat_lt,
      ← UInt32.toNat_inj]
    exact ⟨fun h => by rw [h]; decide, fun ⟨_, h⟩ => Nat.lt_one_iff.mp h⟩
  tx := ⟨[.eq (slot sampleConfig headIndex) (sampleSnapshot (slot sampleConfig headIndex))],
    [BoundedVec.truncateFrom 256 (encode (Action.reply ⟨[9], by decide⟩)),
      BoundedVec.truncateFrom 256 (encode (Action.setQueueHead 1))], []⟩
  cond_mem := List.mem_singleton_self _
  actions_perm := by decide +kernel
  updates_avoid := nofun

/-- Two workers race for message 0 from the same snapshot. -/
def sampleSteps : List (WorkerStep sampleConfig sampleName Nat) :=
  [.claimName (.signed 0) sampleName, .pushMessage sampleName (BoundedVec.truncateFrom 2048 [7]),
    .submit sampleWorker, .submit sampleWorker]

/-- One of the two racing workers is accepted, and it takes the queue to head 1. -/
theorem workers_consume_exactly_once_sample :
    ∃ c : UInt32,
      let ws := acceptedWorkers sampleConfig OnResponse.unit (genesis, ()) sampleSteps
      (queueHead sampleConfig sampleName (run (apply sampleConfig OnResponse.unit) (genesis, ())
        (sampleSteps.map WorkerStep.op)).1 : Exec DispatchError UInt32) = .ok c ∧
      ws.length = 1 ∧ ∀ i, (∃ w ∈ ws, w.head ≤ i ∧ i < w.newHead) ↔ i < c := by
  have hsnap : SnapshotsFromRun sampleConfig OnResponse.unit (genesis, ()) sampleSteps := by
    -- both snapshots were taken after the push
    intro before w after h
    refine ⟨sampleSteps.take 2, ?_⟩
    rcases before with _ | ⟨a, _ | ⟨b, before⟩⟩
    · cases h
    · cases h
    · obtain ⟨rfl, rfl, hrest⟩ : _ ∧ _ ∧ _ := by simpa [sampleSteps] using h
      have hmem : .submit w ∈ before ++ .submit w :: after := by simp
      rw [← hrest] at hmem
      obtain rfl : w = sampleWorker := by simpa using hmem
      exact ⟨⟨before, rfl⟩, rfl⟩
  obtain ⟨c, hhead, _, _, hcover, _⟩ := workers_consume_exactly_once sampleConfig (by decide)
    OnResponse.unit () sampleName sampleSteps hsnap (by decide +kernel)
  exact ⟨c, hhead, by decide +kernel, hcover⟩

end Paraxiom.Anchor
