import Paraxiom.Spec.OracleSteps
import Paraxiom.Spec.QueueRefinement

/-!
# When the queue code panics

The queue shares its key space with the free-form updates of `rollup`, and `queue_head` and
`queue_tail` `expect` that their entries decode. The owner of a name can make them panic by
writing fewer than four bytes there, and can make `end + 1` overflow by writing `u32::MAX`
under `_tail`. `queueSafe_of_run` says that nothing else does, except 2^32 pushes.
-/

namespace Paraxiom.Anchor

open Scale KvStore Transactional

variable {AccountId R : Type}

/-! ## Readable queues -/

/-- The head and the tail that a store holds. -/
structure HeadTail (cfg : Config) (store : Store) (head tail : UInt32) : Prop where
  head : readIndex (store (slot cfg headIndex)) = some head
  tail : readIndex (store (slot cfg tailIndex)) = some tail

section Readable

variable {cfg : Config} {store : Store} {head tail : UInt32}

/-- A store holds one head and one tail. -/
theorem HeadTail.unique {head' tail' : UInt32} (h : HeadTail cfg store head tail)
    (h' : HeadTail cfg store head' tail') : head' = head ∧ tail' = tail :=
  ⟨Option.some.inj (h'.head.symm.trans h.head), Option.some.inj (h'.tail.symm.trans h.tail)⟩

/-- A head move writes the head, and leaves the tail. -/
theorem HeadTail.headMoves (hroom : cfg.HasRoom) (h : HeadTail cfg store head tail)
    (index : UInt32) : HeadTail cfg (writeAll (headMoves cfg head index) store) index tail := by
  obtain ⟨hset, _, hkeep⟩ := Represents.writeAll_headMoves hroom store head index
  constructor
  · rw [hset, readIndex_indexValue]
  · rw [hkeep _ (slot_head_ne_tail hroom).symm fun i _ _ => (slot_index_ne hroom i tailIndex).symm]
    exact h.tail

/-- A push writes the tail, and leaves the head. -/
theorem HeadTail.pushMoves (hroom : cfg.HasRoom) (h : HeadTail cfg store head tail)
    (data : ValueBytes) :
    HeadTail cfg (writeAll (pushMoves cfg tail data) store) head (tail + 1) := by
  constructor
  · simp only [Anchor.pushMoves, writeAll_cons, writeAll_nil,
      Function.update_of_ne (slot_head_ne_tail hroom),
      Function.update_of_ne (slot_index_ne hroom _ headIndex).symm]
    exact h.head
  · simp only [Anchor.pushMoves, writeAll_cons, writeAll_nil, Function.update_self,
      readIndex_indexValue]

variable {name : H256} {s : State AccountId}

/-- A head that is held is answered. -/
theorem noPanic_queueHead (hroom : cfg.HasRoom) (h : HeadTail cfg (s.states name) head tail) :
    (queueHead cfg name s : Exec DispatchError UInt32).NoPanic := by
  rw [queueHead_of_room hroom, h.head]
  exact Exec.noPanic_ok _

/-- And so is a tail. -/
theorem noPanic_queueTail (hroom : cfg.HasRoom) (h : HeadTail cfg (s.states name) head tail) :
    (queueTail cfg name s : Exec DispatchError UInt32).NoPanic := by
  rw [queueTail_of_room hroom, h.tail]
  exact Exec.noPanic_ok _

/-- The length is made of the two. -/
theorem noPanic_queueLen (hroom : cfg.HasRoom) (h : HeadTail cfg (s.states name) head tail) :
    (queueLen cfg name s : Exec DispatchError UInt32).NoPanic :=
  Exec.noPanic_bind (noPanic_queueTail hroom h) fun _ _ =>
    Exec.noPanic_bind (noPanic_queueHead hroom h) fun _ _ => Exec.noPanic_ok _

/-- A push reads both, and writes the tail. -/
theorem noPanic_pushMessage (hroom : cfg.HasRoom) (h : HeadTail cfg (s.states name) head tail)
    (data : ValueBytes) : (pushMessage cfg name data s).NoPanic := by
  rw [pushMessage_of_room hroom data h.head h.tail]
  split
  · split
    · exact Exec.noPanic_ok _
    · exact Exec.noPanic_err _
  · exact Exec.noPanic_err _

/-- A head move reads both, and writes the head. -/
theorem noPanic_queueHeadSet (hroom : cfg.HasRoom) (h : HeadTail cfg (s.states name) head tail)
    (index : UInt32) : (queueHeadSet cfg name index s).NoPanic := by
  rw [queueHeadSet_of_room hroom index h.head h.tail]
  split
  · exact Exec.noPanic_ok _
  · exact Exec.noPanic_err _

end Readable

/-! ## The action loop -/

section Actions

variable {cfg : Config} {onResponse : OnResponse AccountId R} {name : H256} {who : AccountId}
  {head tail : UInt32} {s s' : State AccountId × R}

/-- An action moves the head at most. -/
theorem HeadTail.execAction (hroom : cfg.HasRoom) (h : HeadTail cfg (s.1.states name) head tail)
    {raw : ActionBytes} (hok : execAction cfg onResponse name who s raw = .ok s') :
    ∃ head', HeadTail cfg (s'.1.states name) head' tail := by
  obtain ⟨hstep, ⟨data, hdec, _⟩ | ⟨index, hdec, _⟩⟩ := execAction_eq_ok hok
  · exact ⟨head, by rw [hstep, actionMoves, hdec]; exact h⟩
  · -- the new head is written as four bytes, whatever it is
    refine ⟨index, ?_⟩
    rw [hstep, actionMoves, hdec, applyUpdates_states_self, h.head]
    exact h.headMoves hroom index

/-- Any number of actions leave the tail, and some head. -/
theorem HeadTail.actions (hroom : cfg.HasRoom) (h : HeadTail cfg (s.1.states name) head tail)
    {actions : List ActionBytes}
    (hok : actions.foldlM (Anchor.execAction cfg onResponse name who) s = .ok s') :
    ∃ head', HeadTail cfg (s'.1.states name) head' tail := by
  refine Exec.foldlM_invariant
    (I := fun s => ∃ head', HeadTail cfg (s.1.states name) head' tail) ?_ hok ⟨head, h⟩
  intro s raw s₁ hact hkeep
  obtain ⟨head', hht⟩ := hkeep
  exact hht.execAction hroom hact

/-- Only a head move reads the queue. -/
theorem noPanic_execAction_of_reply
    (hresp : ∀ name who data r, (onResponse name who data r).NoPanic) {raw : ActionBytes}
    (hraw : setHeadOf raw = none) : (execAction cfg onResponse name who s raw).NoPanic := by
  refine Exec.noPanic_bind (noPanic_okOr _ _) fun act hact => ?_
  cases act with
  | reply data => exact Exec.noPanic_bind (hresp _ _ _ _) fun _ _ => Exec.noPanic_ok _
  | setQueueHead index =>
    rw [setHeadOf, show decodeAction raw = _ from okOr_eq_ok.mp hact] at hraw
    exact nomatch hraw

/-- On a queue with head and tail every action returns. -/
theorem noPanic_execAction (hroom : cfg.HasRoom)
    (hresp : ∀ name who data r, (onResponse name who data r).NoPanic)
    (h : HeadTail cfg (s.1.states name) head tail) (raw : ActionBytes) :
    (execAction cfg onResponse name who s raw).NoPanic := by
  refine Exec.noPanic_bind (noPanic_okOr _ _) fun act _ => ?_
  cases act with
  | reply data => exact Exec.noPanic_bind (hresp _ _ _ _) fun _ _ => Exec.noPanic_ok _
  | setQueueHead index =>
    exact Exec.noPanic_bind (noPanic_queueHeadSet hroom h index) fun _ _ => Exec.noPanic_ok _

end Actions

/-! ## The condition -/

section Condition

variable [DecidableEq AccountId] (cfg : Config) (onResponse : OnResponse AccountId R)

/-- The rollup gets past its guards and the replies before its first head move, so that the
    queue is read or kept as its updates left it. -/
def ReachesQueue (origin : Origin AccountId) (name : H256) (tx : RollupTx)
    (s : State AccountId × R) : Prop :=
  ∃ who, origin = .signed who ∧ s.1.submitterByNames.lookup name = some who ∧
    (∀ c ∈ tx.conds, c.Holds (s.1.states name)) ∧
    ∃ s₁, (tx.actions.takeWhile fun raw => (setHeadOf raw).isNone).foldlM
      (execAction cfg onResponse name who) (applyUpdates name tx.updates s.1, s.2) = .ok s₁

/-- The entries of head and tail are absent or at least four bytes long, and the tail is
    not `u32::MAX`. -/
def LeavesReadable (store : Store) : Prop :=
  (∀ bytes, store (slot cfg headIndex) = some bytes → 4 ≤ bytes.toList.length) ∧
    (∀ bytes, store (slot cfg tailIndex) = some bytes → 4 ≤ bytes.toList.length) ∧
    readIndex (store (slot cfg tailIndex)) ≠ some 0xffffffff

/-- The condition on a step: a rollup's updates leave head and tail readable, and a message
    is not pushed when that would take the tail to `u32::MAX`. -/
def StepOk (s : State AccountId × R) : Op AccountId → Prop
  | .claimName _ _ => True
  | .rollup origin name tx _ => ReachesQueue cfg onResponse origin name tx s →
    LeavesReadable cfg (writeAll tx.updates (s.1.states name))
  | .pushMessage name _ => (s.1.submitterByNames.lookup name).isSome →
    ∀ head tail, HeadTail cfg (s.1.states name) head tail →
      saturatingSub tail head < cfg.queueCapacity → tail ≠ 0xfffffffe

/-- Every queue is readable, and none has its tail at `u32::MAX`. -/
def Readable (s : State AccountId) : Prop :=
  ∀ name, ∃ head tail, HeadTail cfg (s.states name) head tail ∧ tail ≠ 0xffffffff

variable {cfg onResponse}

/-- What the updates leave readable has a head and a tail. -/
theorem LeavesReadable.headTail {store : Store} (h : LeavesReadable cfg store) :
    ∃ head tail, HeadTail cfg store head tail ∧ tail ≠ 0xffffffff := by
  obtain ⟨hhead, htail, hmax⟩ := h
  obtain ⟨head, hhead⟩ := Option.isSome_iff_exists.mp ((readIndex_isSome_iff _).mpr hhead)
  obtain ⟨tail, htail⟩ := Option.isSome_iff_exists.mp ((readIndex_isSome_iff _).mpr htail)
  exact ⟨head, tail, ⟨hhead, htail⟩, fun h => hmax (h ▸ htail)⟩

/-- And what has these is readable. -/
theorem HeadTail.leavesReadable {store : Store} {head tail : UInt32}
    (h : HeadTail cfg store head tail) (hmax : tail ≠ 0xffffffff) : LeavesReadable cfg store := by
  refine ⟨?_, ?_, fun hfull => hmax (Option.some.inj (h.tail.symm.trans hfull))⟩
  · exact (readIndex_isSome_iff _).mp (Option.isSome_of_eq_some h.head)
  · exact (readIndex_isSome_iff _).mp (Option.isSome_of_eq_some h.tail)

omit [DecidableEq AccountId] in
/-- Nothing is stored yet. -/
theorem readable_genesis : Readable cfg (genesis : State AccountId) :=
  fun _ => ⟨0, 0, ⟨rfl, rfl⟩, by decide⟩

/-- An accepted rollup reaches the queue. -/
theorem reachesQueue_of_ok {origin : Origin AccountId} {name : H256} {tx : RollupTx}
    {nonce : U128} {s s' : State AccountId × R}
    (h : rollup cfg onResponse origin name tx nonce s = .ok s') :
    ReachesQueue cfg onResponse origin name tx s := by
  obtain ⟨who, horigin, howner, hconds, s₁, hloop, _⟩ := rollup_eq_ok.mp h
  -- the whole loop returned, and so did its start
  rw [← List.takeWhile_append_dropWhile (p := fun raw => (setHeadOf raw).isNone) (l := tx.actions),
    List.foldlM_append] at hloop
  obtain ⟨s₂, hreplies, _⟩ := Exec.bind_eq_ok.mp hloop
  exact ⟨who, horigin, howner, hconds, s₂, hreplies⟩

/-- A step that meets the condition keeps every queue readable. -/
theorem readable_step (hroom : cfg.HasRoom) {s : State AccountId × R} {o : Op AccountId}
    (hok : StepOk cfg onResponse s o) (h : Readable cfg s.1) :
    Readable cfg (step (apply cfg onResponse) s o).1 := by
  intro name
  obtain ⟨head, tail, hht, hmax⟩ := h name
  cases hres : apply cfg onResponse o s with
  | error f => rw [step_of_error hres]; exact ⟨head, tail, hht, hmax⟩
  | ok p =>
    obtain ⟨a, s'⟩ := p
    rw [step_of_ok hres]
    cases o with
    | claimName origin n =>
      obtain ⟨_, hclaim, _⟩ := apply_claimName_eq_ok.mp hres
      obtain ⟨who, _, _, hs'⟩ := claimName_eq_ok.mp hclaim
      rw [hs']; exact ⟨head, tail, hht, hmax⟩
    | rollup origin n tx nonce =>
      obtain ⟨_, hroll⟩ := apply_rollup_eq_ok.mp hres
      by_cases hn : n = name
      · -- the updates leave the queue readable, the actions only move its head
        subst hn
        obtain ⟨head₁, tail₁, hht₁, hmax₁⟩ := (hok (reachesQueue_of_ok hroll)).headTail
        obtain ⟨who, _, _, _, s₁, hloop, hs'⟩ := rollup_eq_ok.mp hroll
        rw [← applyUpdates_states_self] at hht₁
        obtain ⟨head₂, hht₂⟩ := hht₁.actions hroom hloop
        exact ⟨head₂, tail₁, by rw [hs']; exact hht₂, hmax₁⟩
      · -- a rollup of another name does not touch this queue
        rw [(rollup_effect hroll).2.1 name (Ne.symm hn)]
        exact ⟨head, tail, hht, hmax⟩
    | pushMessage n data =>
      obtain ⟨id, _, hpush, _⟩ := apply_pushMessage_eq_ok.mp hres
      obtain ⟨hclaimed, head', hhead, htail, hroomy, hs'⟩ := pushMessage_eq_ok hpush
      rw [hs']
      by_cases hn : n = name
      · subst hn
        obtain ⟨rfl, rfl⟩ := hht.unique ⟨hhead, htail⟩
        refine ⟨head', id + 1, ?_, ?_⟩
        · rw [applyUpdates_states_self]
          exact hht.pushMoves hroom data
        · -- the tail only reaches `u32::MAX` from the one below it
          intro hid
          refine hok hclaimed head' id hht hroomy ?_
          rw [← UInt32.add_sub_cancel id 1, hid]; rfl
      · rw [applyUpdates_states_of_ne _ _ _ (Ne.symm hn)]
        exact ⟨head, tail, hht, hmax⟩

omit [DecidableEq AccountId] in
/-- A condition that is not met is an error. -/
private theorem noPanic_checkConds (name : H256) (s : State AccountId) (conds : List Cond) :
    (checkConds name s conds).NoPanic := by
  induction conds with
  | nil => exact Exec.noPanic_ok ()
  | cons c conds ih => exact Exec.noPanic_bind (noPanic_ensure _ _) fun _ _ => ih

/-- A rollup that meets the condition returns. -/
theorem noPanic_rollup (hroom : cfg.HasRoom)
    (hresp : ∀ name who data r, (onResponse name who data r).NoPanic)
    {origin : Origin AccountId} {name : H256} {tx : RollupTx} {nonce : U128}
    {s : State AccountId × R} (hok : StepOk cfg onResponse s (.rollup origin name tx nonce)) :
    (rollup cfg onResponse origin name tx nonce s).NoPanic := by
  refine Exec.noPanic_bind (noPanic_ensureSigned _) fun who horigin =>
    Exec.noPanic_bind ?_ fun _ howner => Exec.noPanic_bind (noPanic_checkConds _ _ _)
      fun _ hconds => Exec.noPanic_bind ?_ fun _ _ => Exec.noPanic_ok _
  · exact Exec.noPanic_bind (noPanic_okOr _ _) fun _ _ => noPanic_ensure _ _
  · cases hreplies : (tx.actions.takeWhile fun raw => (setHeadOf raw).isNone).foldlM
      (execAction cfg onResponse name who) (applyUpdates name tx.updates s.1, s.2) with
    | ok s₁ =>
      -- the queue is reached, and its head and tail stay readable through the loop
      obtain ⟨head, tail, hht, _⟩ := (hok ⟨who, ensureSigned_eq_ok.mp horigin,
        ensureNameOwner_eq_ok.mp howner, checkConds_eq_ok.mp hconds, s₁, hreplies⟩).headTail
      rw [← applyUpdates_states_self] at hht
      refine Exec.noPanic_foldlM
        (I := fun s' : State AccountId × R => ∃ head, HeadTail cfg (s'.1.states name) head tail)
        (fun s' raw _ hinv => ?_) ⟨head, hht⟩
      obtain ⟨head', hht'⟩ := hinv
      exact ⟨noPanic_execAction hroom hresp hht' raw, fun _ hact => hht'.execAction hroom hact⟩
    | error f =>
      -- a reply before the first head move fails, and with it the loop
      have hnp := Exec.noPanic_foldlM (I := fun _ => True)
        (f := execAction cfg onResponse name who)
        (l := tx.actions.takeWhile fun raw => (setHeadOf raw).isNone)
        (b := (applyUpdates name tx.updates s.1, s.2))
        (fun _ raw hraw _ => ⟨noPanic_execAction_of_reply hresp
          (Option.isNone_iff_eq_none.mp (List.mem_takeWhile_imp
            (p := fun raw => (setHeadOf raw).isNone) hraw)), fun _ _ => trivial⟩) trivial
      rw [← List.takeWhile_append_dropWhile (p := fun raw => (setHeadOf raw).isNone)
        (l := tx.actions), List.foldlM_append]
      exact Exec.noPanic_bind hnp fun s₁ h₁ => nomatch h₁.symm.trans hreplies

end Condition

/-! ## Runs -/

section Runs

variable [DecidableEq AccountId] [Codec AccountId]

/-- In this state no queue function panics and no push overflows, whatever its arguments;
    neither does a request, nor a rollup that is `Admitted`. -/
structure QueueSafe (cfg : Oracle.Config) (Admitted : Op AccountId → Prop)
    (s : State AccountId × Oracle.State cfg AccountId) : Prop where
  head : ∀ name, (queueHead cfg.anchor name s.1 : Exec DispatchError UInt32).NoPanic
  tail : ∀ name, (queueTail cfg.anchor name s.1 : Exec DispatchError UInt32).NoPanic
  len : ∀ name, (queueLen cfg.anchor name s.1 : Exec DispatchError UInt32).NoPanic
  push : ∀ name data, (pushMessage cfg.anchor name data s.1).NoPanic
  push_no_overflow : ∀ name data id s', pushMessage cfg.anchor name data s.1 = .ok (id, s') →
    id.toNat + 1 < 2 ^ 32
  rollup : ∀ origin name tx nonce, Admitted (.rollup origin name tx nonce) →
    (rollup cfg.anchor Oracle.onResponse origin name tx nonce s).NoPanic
  request : ∀ block registry origin key nonce,
    (Oracle.request block registry origin key nonce s).NoPanic

/-- In a run from genesis whose steps all meet the condition, every state is safe. -/
theorem queueSafe_of_run (cfg : Oracle.Config) (hroom : cfg.anchor.HasRoom)
    (ops : List (Op AccountId))
    (hok : ∀ e ∈ history (apply cfg.anchor Oracle.onResponse)
        (genesis, (Oracle.genesis : Oracle.State cfg AccountId)) ops,
      StepOk cfg.anchor Oracle.onResponse e.pre e.op) :
    let s := run (apply cfg.anchor Oracle.onResponse)
      (genesis, (Oracle.genesis : Oracle.State cfg AccountId)) ops
    QueueSafe cfg (StepOk cfg.anchor Oracle.onResponse s) s := by
  intro s
  have hread : Readable cfg.anchor s.1 :=
    history_induction (P := fun _ s => Readable cfg.anchor s.1) readable_genesis
      (fun _ _ _ hok h => readable_step hroom hok h) ops hok
  -- `request` calls `push_message`, so it is safe once that is
  have hpush : ∀ name data, (pushMessage cfg.anchor name data s.1).NoPanic := by
    intro name data
    obtain ⟨_, _, hht, _⟩ := hread name
    exact noPanic_pushMessage hroom hht data
  refine {
    head := fun name => ?_
    tail := fun name => ?_
    len := fun name => ?_
    push := hpush
    push_no_overflow := fun name data id s' h => ?_
    rollup := fun origin name tx nonce h => noPanic_rollup hroom Oracle.noPanic_onResponse h
    request := fun _ _ _ _ _ => Oracle.noPanic_request hpush }
  · obtain ⟨_, _, hht, _⟩ := hread name
    exact noPanic_queueHead hroom hht
  · obtain ⟨_, _, hht, _⟩ := hread name
    exact noPanic_queueTail hroom hht
  · obtain ⟨_, _, hht, _⟩ := hread name
    exact noPanic_queueLen hroom hht
  · -- the id that a push answers is the tail that it found
    obtain ⟨_, tail, hht, hmax⟩ := hread name
    obtain ⟨_, head', hhead, htail, _, _⟩ := pushMessage_eq_ok h
    obtain ⟨_, rfl⟩ := hht.unique ⟨hhead, htail⟩
    have hlt := id.toNat_lt
    have hne : id.toNat ≠ 4294967295 := fun he => hmax (UInt32.toNat_inj.mp he)
    omega

/-- The owner writes the head of the queue itself, and then moves it. -/
def ownerRollup : Op UInt32 :=
  .rollup (.signed 0) sampleName ⟨[],
    [BoundedVec.truncateFrom 256 (encode (Action.setQueueHead 1))],
    [(slot Anchor.sampleConfig headIndex, some (indexValue 0))]⟩ 0

/-- A claim, a push, and a rollup of the owner. -/
def ownerOps : List (Op UInt32) :=
  [.claimName (.signed 0) sampleName, .pushMessage sampleName (BoundedVec.truncateFrom _ [7]),
    ownerRollup]

/-- A push to a queue in range meets the condition, and so does a rollup that leaves the head
    and the tail readable; the state after them is safe, and admits the same rollup again. -/
theorem queueSafe_of_run_sample :
    QueueSafe Oracle.sampleConfig (· = ownerRollup)
      (run (apply Oracle.sampleConfig.anchor Oracle.onResponse)
        (genesis, (Oracle.genesis : Oracle.State Oracle.sampleConfig UInt32)) ownerOps) := by
  have h := queueSafe_of_run Oracle.sampleConfig (by decide) ownerOps ?_
  · refine { h with rollup := fun origin name tx nonce heq => h.rollup origin name tx nonce ?_ }
    rw [heq]
    intro _
    apply HeadTail.leavesReadable
      (show HeadTail _ _ 0 1 from ⟨by decide +kernel, by decide +kernel⟩) (by decide)
  · rintro e he
    rcases List.mem_cons.mp he with rfl | he
    · trivial
    rcases List.mem_cons.mp he with rfl | he
    · -- the tail that the push finds is 0
      rintro _ head tail hht _ rfl
      exact absurd hht.tail (by decide +kernel)
    · -- the updates of the rollup write four bytes under the head
      obtain rfl := List.mem_singleton.mp he
      intro _
      apply HeadTail.leavesReadable
        (show HeadTail _ _ 0 1 from ⟨by decide +kernel, by decide +kernel⟩) (by decide)

/-- The owner of a name stores an empty head, and `queue_head` panics. -/
theorem owner_can_panic_queue :
    ¬∀ ops : List (Op UInt32), QueueSafe Oracle.sampleConfig (fun _ => True)
      (run (apply Oracle.sampleConfig.anchor Oracle.onResponse) (genesis, Oracle.genesis) ops) := by
  intro h
  have hhead := (h [.claimName (.signed 0) sampleName, .rollup (.signed 0) sampleName
    ⟨[], [], [(slot Anchor.sampleConfig headIndex, some ⟨[], by decide⟩)]⟩ 0]).head sampleName
  exact hhead "BUG: Failed to decode queue head" (by rfl)

end Runs

end Paraxiom.Anchor
