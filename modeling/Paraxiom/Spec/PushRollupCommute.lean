import Paraxiom.Spec.QueueRefinement

/-!
# Producing and consuming are independent

A push writes the entry at the tail and the tail itself; a head move removes entries below
the tail and writes the head. The keys are different, and each operation leaves the guards
of the other as they were or weaker: a push raises the tail that bounds a head move, and a
head move shortens the queue that a push must fit in.

## Key results

- `execAction_afterPush`, `foldlM_execAction_afterPush`: an action, and an action loop,
  on the state that a push left
- `rollup_afterPush`: an accepted rollup is still accepted after a push
- `pushMessage_of_rollup`: an accepted push is still accepted after a rollup, with its id
-/

namespace Paraxiom.Anchor

open Scale KvStore Transactional

variable {AccountId R : Type}

/-! ## Disjoint keys -/

section Keys

variable {cfg : Config} {tail : UInt32} {data : ValueBytes}

/-- A push writes its entry and the tail. -/
theorem key_of_mem_pushMoves {v : KeyBytes × Option ValueBytes} (hv : v ∈ pushMoves cfg tail data) :
    v.1 = slot cfg tail ∨ v.1 = slot cfg tailIndex := by
  rcases List.mem_cons.mp hv with rfl | hv
  · exact .inl rfl
  · obtain rfl := List.mem_singleton.mp hv
    exact .inr rfl

/-- The queue's own keys start with the queue prefix. -/
theorem prefix_of_isQueueKey (hroom : cfg.HasRoom) {key : KeyBytes} (h : IsQueueKey cfg key) :
    cfg.queuePrefix <+: key.toList := by
  have hslot : ∀ {ι : Type} [Codec ι] (index : ι), (encode index).length ≤ 5 →
      cfg.queuePrefix <+: (slot cfg index).toList := by
    intro ι _ index hlen
    unfold Config.HasRoom at hroom
    rw [slot, BoundedVec.truncateFrom_toList_of_le (by rw [List.length_append]; omega)]
    exact List.prefix_append _ _
  rcases h with rfl | rfl | ⟨i, rfl⟩
  · exact hslot headIndex (by simp)
  · exact hslot tailIndex (by simp)
  · exact hslot i (by simp)

/-- Updates outside the queue's keys are outside the keys of a push. -/
theorem AvoidsQueue.ne_pushMoves {us : List (KeyBytes × Option ValueBytes)}
    (h : AvoidsQueue cfg us) : ∀ u ∈ us, ∀ v ∈ pushMoves cfg tail data, u.1 ≠ v.1 := by
  intro u hu v hv he
  have hkey : IsQueueKey cfg v.1 := isQueueKey_of_mem_pushMoves v hv
  rw [← he] at hkey
  exact h u hu hkey

/-- A head move that stays below the tail is outside the keys of a push. -/
theorem headMoves_ne_pushMoves (hroom : cfg.HasRoom) {head index : UInt32} (hle : index ≤ tail) :
    ∀ u ∈ headMoves cfg head index, ∀ v ∈ pushMoves cfg tail data, u.1 ≠ v.1 := by
  intro u hu v hv
  -- a head move removes entries and then writes the head
  rcases List.mem_append.mp hu with hu | hu
  · obtain ⟨i, hi, rfl⟩ := List.mem_map.mp hu
    obtain ⟨_, hlt⟩ := mem_rangeU32.mp hi
    rcases key_of_mem_pushMoves hv with hkey | hkey
    · -- a removed entry lies strictly below the tail
      have hne : i ≠ tail := by
        rintro rfl
        rw [UInt32.lt_iff_toNat_lt] at hlt
        rw [UInt32.le_iff_toNat_le] at hle
        omega
      rw [hkey]
      exact mt (slot_index_inj hroom).mp hne
    · rw [hkey]
      exact slot_index_ne hroom i tailIndex
  · obtain rfl := List.mem_singleton.mp hu
    rcases key_of_mem_pushMoves hv with hkey | hkey
    · rw [hkey]
      exact (slot_index_ne hroom tail headIndex).symm
    · rw [hkey]
      exact slot_head_ne_tail hroom

end Keys

/-- The updates of a rollup change the store of its name, and nothing else. -/
theorem applyUpdates_eq (name : H256) (us : List (KeyBytes × Option ValueBytes))
    (s : State AccountId) : applyUpdates name us s =
      { s with states := Function.update s.states name (writeAll us (s.states name)) } := by
  induction us generalizing s with
  | nil => simp
  | cons u us ih =>
    rw [applyUpdates_cons, ih]
    simp [State.setState]

/-- Updates of different keys of a name commute. -/
theorem applyUpdates_comm (name : H256) {us vs : List (KeyBytes × Option ValueBytes)}
    (h : ∀ u ∈ us, ∀ v ∈ vs, u.1 ≠ v.1) (s : State AccountId) :
    applyUpdates name us (applyUpdates name vs s) =
      applyUpdates name vs (applyUpdates name us s) := by
  simp only [applyUpdates_eq, Function.update_self, Function.update_idem, writeAll_comm h]

/-! ## The state after a push -/

/-- What a push under the id `tail` makes of a state. -/
def afterPush (cfg : Config) (name : H256) (tail : UInt32) (data : ValueBytes)
    (s : State AccountId) : State AccountId :=
  applyUpdates name (pushMoves cfg tail data) s

section AfterPush

variable {cfg : Config} {name : H256} {tail : UInt32} {data : ValueBytes}

@[simp] theorem afterPush_submitterByNames (s : State AccountId) :
    (afterPush cfg name tail data s).submitterByNames = s.submitterByNames :=
  applyUpdates_submitterByNames s name _

/-- Every key but the two of the push. -/
theorem afterPush_states_of_ne {key : KeyBytes} (hentry : key ≠ slot cfg tail)
    (htail : key ≠ slot cfg tailIndex) (s : State AccountId) :
    (afterPush cfg name tail data s).states name key = s.states name key := by
  rw [afterPush, applyUpdates_states_self]
  refine writeAll_of_forall_ne (fun u hu he => ?_) _
  rcases key_of_mem_pushMoves hu with hkey | hkey
  · exact hentry (he.symm.trans hkey)
  · exact htail (he.symm.trans hkey)

/-- The message is under its id. -/
theorem afterPush_states_entry (hroom : cfg.HasRoom) (s : State AccountId) :
    (afterPush cfg name tail data s).states name (slot cfg tail) = some data := by
  simp [afterPush, pushMoves, Function.update_of_ne (slot_index_ne hroom tail tailIndex)]

/-- The tail is one further. -/
theorem readIndex_afterPush_tail (s : State AccountId) :
    readIndex ((afterPush cfg name tail data s).states name (slot cfg tailIndex)) =
      some (tail + 1) := by
  simp [afterPush, pushMoves]

/-- The head is where it was. -/
theorem afterPush_states_head (hroom : cfg.HasRoom) (s : State AccountId) :
    (afterPush cfg name tail data s).states name (slot cfg headIndex) =
      s.states name (slot cfg headIndex) :=
  afterPush_states_of_ne (slot_index_ne hroom tail headIndex).symm (slot_head_ne_tail hroom) s

/-- The effect of a push tells the name it was made to, and what was pushed. -/
theorem pushMessage_inj {name' : H256} {data' : ValueBytes} {id id' : UInt32}
    {s s' : State AccountId} (h : pushMessage cfg name data s = .ok (id, s'))
    (h' : pushMessage cfg name' data' s = .ok (id', s')) :
    name = name' ∧ data = data' ∧ id = id' := by
  have hroom := hasRoom_of_pushMessage h
  obtain ⟨_, _, _, htail, _, hs⟩ := pushMessage_eq_ok h
  obtain ⟨_, _, _, htail', _, hs'⟩ := pushMessage_eq_ok h'
  have hname : name = name' := by
    by_contra hne
    -- a push to another name leaves the tail that this one raised
    have hkept : s'.states name = s.states name := by
      rw [hs', applyUpdates_states_of_ne _ _ _ hne]
    have hraised : readIndex ((afterPush cfg name id data s).states name (slot cfg tailIndex)) =
        some (id + 1) := readIndex_afterPush_tail s
    rw [afterPush, ← hs, hkept, htail] at hraised
    exact absurd (Option.some.inj hraised) (by simp)
  subst hname
  obtain rfl : id = id' := Option.some.inj (htail.symm.trans htail')
  have hentry : (afterPush cfg name id data s).states name (slot cfg id) = some data :=
    afterPush_states_entry hroom s
  have hentry' : (afterPush cfg name id data' s).states name (slot cfg id) = some data' :=
    afterPush_states_entry hroom s
  rw [afterPush, ← hs] at hentry
  rw [afterPush, ← hs', hentry] at hentry'
  exact ⟨rfl, Option.some.inj hentry', rfl⟩

end AfterPush

/-! ## A rollup after a push -/

/-- A queue with this tail whose head has not fallen below `head`. -/
structure Bounds (cfg : Config) (head tail : UInt32) (store : Store) : Prop where
  tail : readIndex (store (slot cfg tailIndex)) = some tail
  head : ∃ h, readIndex (store (slot cfg headIndex)) = some h ∧ head ≤ h

/-- The bounds only depend on the two index entries. -/
theorem Bounds.of_states_eq {cfg : Config} {head tail : UInt32} {store store' : Store}
    (h : Bounds cfg head tail store)
    (htail : store' (slot cfg tailIndex) = store (slot cfg tailIndex))
    (hhead : store' (slot cfg headIndex) = store (slot cfg headIndex)) :
    Bounds cfg head tail store' :=
  ⟨by rw [htail]; exact h.tail, by rw [hhead]; exact h.head⟩

section Rollup

variable {cfg : Config} {name : H256} {head tail : UInt32} (data : ValueBytes)

/-- A head move keeps the tail and moves the head up. -/
theorem Bounds.queueHeadSet (hroom : cfg.HasRoom) {index : UInt32} {s s' : State AccountId}
    (hb : Bounds cfg head tail (s.states name)) (h : queueHeadSet cfg name index s = .ok s') :
    Bounds cfg head tail (s'.states name) := by
  obtain ⟨old, _, hold, _, hle, _, rfl⟩ := queueHeadSet_eq_ok h
  obtain ⟨low, hlow, hhead⟩ := hb.head
  obtain rfl : low = old := Option.some.inj (hlow.symm.trans hold)
  obtain ⟨hset, _, hkeep⟩ := Represents.writeAll_headMoves hroom (s.states name) low index
  -- the tail entry is none of those that a head move writes
  have htail := hkeep _ (slot_head_ne_tail hroom).symm
    fun i _ _ => (slot_index_ne hroom i tailIndex).symm
  rw [applyUpdates_states_self]
  refine ⟨by rw [htail]; exact hb.tail, index, ?_, UInt32.le_trans hhead hle⟩
  rw [hset, readIndex_indexValue]

/-- A head move that is accepted is still accepted after a push: the tail is further up,
    the head is where it was, and the entries removed are none that the push wrote. -/
theorem queueHeadSet_afterPush (hroom : cfg.HasRoom) (hlt : tail.toNat < 2 ^ 32 - 1)
    {index : UInt32} {s s' : State AccountId}
    (htail : readIndex (s.states name (slot cfg tailIndex)) = some tail)
    (h : queueHeadSet cfg name index s = .ok s') :
    queueHeadSet cfg name index (afterPush cfg name tail data s) =
      .ok (afterPush cfg name tail data s') := by
  obtain ⟨old, tail', hold, htail', hle, hge, rfl⟩ := queueHeadSet_eq_ok h
  obtain rfl : tail' = tail := Option.some.inj (htail'.symm.trans htail)
  have hold' : readIndex ((afterPush cfg name tail' data s).states name (slot cfg headIndex)) =
      some old := by
    rw [afterPush_states_head hroom]; exact hold
  have hin : old ≤ index ∧ index ≤ tail' + 1 := by
    refine ⟨hle, ?_⟩
    -- the tail did not wrap
    have hone : (tail' + 1).toNat = tail'.toNat + 1 := by
      rw [UInt32.toNat_add, UInt32.toNat_one]; omega
    rw [UInt32.le_iff_toNat_le] at hge ⊢
    omega
  rw [queueHeadSet_of_room hroom index hold' (readIndex_afterPush_tail s), if_pos hin, afterPush,
    afterPush, applyUpdates_comm name (headMoves_ne_pushMoves hroom hge)]

variable {onResponse : OnResponse AccountId R} {who : AccountId}

/-- One action on the state that a push left does what it did before, beside the push. -/
theorem execAction_afterPush (hroom : cfg.HasRoom) (hlt : tail.toNat < 2 ^ 32 - 1)
    {s s' : State AccountId × R} {raw : ActionBytes}
    (hb : Bounds cfg head tail (s.1.states name))
    (h : execAction cfg onResponse name who s raw = .ok s') :
    execAction cfg onResponse name who (afterPush cfg name tail data s.1, s.2) raw =
        .ok (afterPush cfg name tail data s'.1, s'.2) ∧
      Bounds cfg head tail (s'.1.states name) := by
  obtain ⟨hstep, ⟨reply, hdec, hresp⟩ | ⟨index, hdec, hset, hr⟩⟩ := execAction_eq_ok h
  · -- the handler does not see the anchor, and a reply leaves it alone
    have hsame : s'.1 = s.1 := by
      rw [hstep, actionMoves, hdec]; rfl
    rw [execAction_of_reply hdec, hresp, hsame]
    exact ⟨rfl, hb⟩
  · rw [execAction_of_setQueueHead hdec, queueHeadSet_afterPush data hroom hlt hb.tail hset, hr]
    exact ⟨rfl, hb.queueHeadSet hroom hset⟩

/-- So does an action loop. -/
theorem foldlM_execAction_afterPush (hroom : cfg.HasRoom) (hlt : tail.toNat < 2 ^ 32 - 1)
    {actions : List ActionBytes} {s s' : State AccountId × R}
    (hb : Bounds cfg head tail (s.1.states name))
    (h : actions.foldlM (execAction cfg onResponse name who) s = .ok s') :
    actions.foldlM (execAction cfg onResponse name who) (afterPush cfg name tail data s.1, s.2) =
        .ok (afterPush cfg name tail data s'.1, s'.2) ∧
      Bounds cfg head tail (s'.1.states name) := by
  induction actions generalizing s with
  | nil =>
    obtain rfl := Exec.pure_eq_ok.mp h
    exact ⟨rfl, hb⟩
  | cons raw actions ih =>
    rw [List.foldlM_cons] at h ⊢
    obtain ⟨s₁, hact, h⟩ := Exec.bind_eq_ok.mp h
    obtain ⟨hact', hb₁⟩ := execAction_afterPush data hroom hlt hb hact
    obtain ⟨hloop, hb'⟩ := ih hb₁ h
    exact ⟨Exec.bind_eq_ok.mpr ⟨_, hact', hloop⟩, hb'⟩

variable {tx : RollupTx}

/-- The loop of an accepted rollup, with the queue it starts from and the one it leaves. -/
theorem rollup_loop_bounds (hroom : cfg.HasRoom) (hlt : tail.toNat < 2 ^ 32 - 1)
    {s s₁ : State AccountId × R} (havoid : AvoidsQueue cfg tx.updates)
    (hb : Bounds cfg head tail (s.1.states name))
    (h : tx.actions.foldlM (execAction cfg onResponse name who)
      (applyUpdates name tx.updates s.1, s.2) = .ok s₁) :
    tx.actions.foldlM (execAction cfg onResponse name who)
        (afterPush cfg name tail data (applyUpdates name tx.updates s.1), s.2) =
        .ok (afterPush cfg name tail data s₁.1, s₁.2) ∧
      Bounds cfg head tail (s₁.1.states name) := by
  -- the updates reach the queue neither before the push nor after it
  have hkeep : ∀ key, IsQueueKey cfg key →
      (applyUpdates name tx.updates s.1).states name key = s.1.states name key := by
    intro key hkey
    rw [applyUpdates_states_self]
    refine writeAll_of_forall_ne (fun u hu he => havoid u hu ?_) _
    rw [he]; exact hkey
  have hb₀ : Bounds cfg head tail ((applyUpdates name tx.updates s.1).states name) :=
    hb.of_states_eq (hkeep _ (.inr (.inl rfl))) (hkeep _ (.inl rfl))
  exact foldlM_execAction_afterPush data hroom hlt hb₀ h

variable [DecidableEq AccountId] {origin : Origin AccountId} {nonce : U128}

/-- The key that a condition names. -/
def Cond.key : Cond → KeyBytes
  | .eq key _ => key

/-- A rollup reads none of the keys that a push at `tail` writes and writes none of the
    queue's own keys. -/
structure RollupTx.Consumes (cfg : Config) (tail : UInt32) (tx : RollupTx) : Prop where
  conds_tail : ∀ c ∈ tx.conds, c.key ≠ slot cfg tailIndex
  conds_entry : ∀ c ∈ tx.conds, c.key ≠ slot cfg tail
  updates : AvoidsQueue cfg tx.updates

/-- An accepted rollup is still accepted after a push, and leaves the push as it is. -/
theorem rollup_afterPush (hroom : cfg.HasRoom) (hlt : tail.toNat < 2 ^ 32 - 1)
    {s s' : State AccountId × R} (htx : tx.Consumes cfg tail)
    (hb : Bounds cfg head tail (s.1.states name))
    (h : rollup cfg onResponse origin name tx nonce s = .ok s') :
    rollup cfg onResponse origin name tx nonce (afterPush cfg name tail data s.1, s.2) =
        .ok (afterPush cfg name tail data s'.1, s'.2) ∧
      Bounds cfg head tail (s'.1.states name) := by
  obtain ⟨who, horigin, howner, hconds, s₁, hloop, rfl⟩ := rollup_eq_ok.mp h
  obtain ⟨hloop', hb'⟩ := rollup_loop_bounds data hroom hlt htx.updates hb hloop
  -- a condition reads a key that the push did not write
  have hconds' : ∀ c ∈ tx.conds, c.Holds ((afterPush cfg name tail data s.1).states name) := by
    intro c hc
    have htail := htx.conds_tail c hc
    have hentry := htx.conds_entry c hc
    have hc := hconds c hc
    cases c with
    | eq key value =>
      exact (afterPush_states_of_ne hentry htail s.1).trans hc
  -- the updates and the push are written in the other order
  rw [afterPush, ← applyUpdates_comm name htx.updates.ne_pushMoves, ← afterPush] at hloop'
  have howner' : (afterPush cfg name tail data s.1).submitterByNames.lookup name = some who := by
    rw [afterPush_submitterByNames]; exact howner
  refine ⟨rollup_eq_ok.mpr ⟨who, horigin, howner', hconds', _, hloop', ?_⟩, hb'⟩
  simp only [afterPush, applyUpdates_eq]

/-! ## A push after a rollup -/

/-- With the head further on, no more messages wait. -/
theorem saturatingSub_le_of_le (tail : UInt32) {head head' : UInt32} (hle : head ≤ head') :
    saturatingSub tail head' ≤ saturatingSub tail head := by
  rw [UInt32.le_iff_toNat_le] at hle ⊢
  rw [toNat_saturatingSub, toNat_saturatingSub]
  omega

omit [DecidableEq AccountId] in
/-- A push that fits a queue fits every queue of the same tail whose head is further up, and
    is answered with the same id. -/
theorem pushMessage_of_bounds (hroom : cfg.HasRoom) {s : State AccountId}
    (hname : (s.submitterByNames.lookup name).isSome)
    (hlen : saturatingSub tail head < cfg.queueCapacity)
    (hb : Bounds cfg head tail (s.states name)) :
    pushMessage cfg name data s = .ok (tail, afterPush cfg name tail data s) := by
  obtain ⟨head', hhead', hle⟩ := hb.head
  have hlen' : saturatingSub tail head' < cfg.queueCapacity :=
    UInt32.lt_of_le_of_lt (saturatingSub_le_of_le tail hle) hlen
  rw [pushMessage_of_room hroom data hhead' hb.tail, if_pos hname, if_pos hlen', afterPush]

end Rollup

/-! ## Independence -/

variable [DecidableEq AccountId]

/-- Producing and consuming are independent, in every state whose tail does not wrap. When
    a push to a name and a rollup on it both succeed, they succeed in either order, the push
    is answered with the same id, the state after both is the same, and the message is in it. -/
theorem push_rollup_commute (cfg : Config) (onResponse : OnResponse AccountId R)
    (s : State AccountId × R) (name : H256) (data : ValueBytes) (origin : Origin AccountId)
    (tx : RollupTx) (nonce : U128) (tail : UInt32)
    (htail : (queueTail cfg name s.1 : Exec Error UInt32) = .ok tail)
    (hlt : tail.toNat < 2 ^ 32 - 1) (htx : tx.Consumes cfg tail)
    (hpush : ∃ id, (event (apply cfg onResponse) s (.pushMessage name data)).result =
      .ok (.pushed id))
    (hroll : (event (apply cfg onResponse) s (.rollup origin name tx nonce)).result = .ok .done) :
    let pushed := step (apply cfg onResponse) s (.pushMessage name data)
    let rolled := step (apply cfg onResponse) s (.rollup origin name tx nonce)
    (∃ id, (event (apply cfg onResponse) s (.pushMessage name data)).result = .ok (.pushed id) ∧
      (event (apply cfg onResponse) rolled (.pushMessage name data)).result = .ok (.pushed id) ∧
      (step (apply cfg onResponse) rolled (.pushMessage name data)).1.states name (slot cfg id) =
        some data) ∧
    (event (apply cfg onResponse) pushed (.rollup origin name tx nonce)).result = .ok .done ∧
    step (apply cfg onResponse) pushed (.rollup origin name tx nonce) =
      step (apply cfg onResponse) rolled (.pushMessage name data) := by
  intro pushed rolled
  obtain ⟨id, hpush⟩ := hpush
  -- both operations as they succeed in `s`
  obtain ⟨_, hid, hok, hr⟩ := apply_pushMessage_eq_ok.mp (event_result_eq_ok.mp hpush)
  obtain ⟨_, hrolled⟩ := apply_rollup_eq_ok.mp (event_result_eq_ok.mp hroll)
  obtain rfl := Answer.pushed.inj hid
  have hroom := hasRoom_of_pushMessage hok
  obtain ⟨hname, head, hhead, hread, hlen, hpost⟩ := pushMessage_eq_ok hok
  obtain rfl : id = tail := Option.some.inj (hread.symm.trans (queueTail_eq_ok htail))
  have hb : Bounds cfg head id (s.1.states name) := ⟨hread, head, hhead, UInt32.le_refl head⟩
  -- the rollup after the push
  obtain ⟨hroll₂, hb'⟩ := rollup_afterPush data hroom hlt htx hb hrolled
  have hpushed : (afterPush cfg name id data s.1, s.2) = pushed := Prod.ext hpost.symm hr.symm
  rw [hpushed] at hroll₂
  have hafter : apply cfg onResponse (.rollup origin name tx nonce) pushed =
      .ok (.done, (afterPush cfg name id data rolled.1, rolled.2)) :=
    apply_rollup_eq_ok.mpr ⟨rfl, hroll₂⟩
  -- the push after the rollup
  have hname' : (rolled.1.submitterByNames.lookup name).isSome := by
    rw [(rollup_effect hrolled).2.2]; exact hname
  have hpush₂ := pushMessage_of_bounds data hroom hname' hlen hb'
  have hbefore : apply cfg onResponse (.pushMessage name data) rolled =
      .ok (.pushed id, (afterPush cfg name id data rolled.1, rolled.2)) :=
    apply_pushMessage_eq_ok.mpr ⟨id, rfl, hpush₂, rfl⟩
  refine ⟨⟨id, hpush, ?_, ?_⟩, ?_, ?_⟩
  · exact event_result_eq_ok.mpr (by rw [step_of_ok hbefore, hbefore])
  · rw [step_of_ok hbefore]
    exact afterPush_states_entry hroom rolled.1
  · exact event_result_eq_ok.mpr (by rw [step_of_ok hafter, hafter])
  · rw [step_of_ok hafter, step_of_ok hbefore]

/-- A queue of two messages, and a rollup that checks the head, stores a value under a key
    of its own and consumes them one after the other. -/
def sampleConsume : RollupTx where
  conds := [.eq (slot sampleConfig headIndex) none]
  actions := [BoundedVec.truncateFrom 256 (encode (Action.setQueueHead 1)),
    BoundedVec.truncateFrom 256 (encode (Action.reply (BoundedVec.truncateFrom 256 [5]))),
    BoundedVec.truncateFrom 256 (encode (Action.setQueueHead 2))]
  updates := [(BoundedVec.truncateFrom 128 [1], some (BoundedVec.truncateFrom 2048 [2]))]

/-- The queue is consumed to its end while a third message arrives. -/
theorem push_rollup_commute_sample :
    let s := run (apply sampleConfig OnResponse.unit) (genesis, ()) (sampleOps.take 3)
    step (apply sampleConfig OnResponse.unit)
        (step (apply sampleConfig OnResponse.unit) s
          (.pushMessage sampleName (BoundedVec.truncateFrom 2048 [9])))
        (.rollup (.signed 0) sampleName sampleConsume 0) =
      step (apply sampleConfig OnResponse.unit)
        (step (apply sampleConfig OnResponse.unit) s
          (.rollup (.signed 0) sampleName sampleConsume 0))
        (.pushMessage sampleName (BoundedVec.truncateFrom 2048 [9])) := by
  intro s
  have havoid : AvoidsQueue sampleConfig sampleConsume.updates := by
    intro u hu
    obtain rfl := List.mem_singleton.mp hu
    exact mt (prefix_of_isQueueKey (by decide)) (by decide)
  have htx : sampleConsume.Consumes sampleConfig 2 :=
    ⟨by decide +kernel, by decide +kernel, havoid⟩
  exact (push_rollup_commute sampleConfig OnResponse.unit s sampleName
    (BoundedVec.truncateFrom 2048 [9]) (.signed 0) sampleConsume 0 2 (by decide +kernel)
    (by decide) htx ⟨2, by decide +kernel⟩ (by decide +kernel)).2.2

end Paraxiom.Anchor
