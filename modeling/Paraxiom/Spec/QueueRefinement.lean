import Paraxiom.ForStd.Transactional
import Paraxiom.ForStd.BoundedFifo
import Paraxiom.Spec.AnchorSteps

/-!
# The message queue refines a bounded FIFO

The queue of a name is spread over entries of an untyped byte map that user updates share.
`Represents` relates such a store to a `BoundedFifo`, and every operation of the anchor
preserves the relation as long as accepted updates leave the queue's own keys alone.

## Key results

- `Represents.push`, `Represents.moveHead`, `Represents.updates`: one step of the store is
  one step of the FIFO
- `represents_of_run`: the store of a name represents the FIFO of the messages pushed to
  it and the head moves accepted for it, after any run
- `waitingIn_concat`: messages leave in the order in which they were pushed
- `queue_refines_fifo`: what the queue functions answer in every reachable state
-/

namespace Paraxiom.Anchor

open Scale KvStore Transactional

variable {AccountId R : Type}

/-! ## The keys of a queue -/

/-- One of the queue's own keys. -/
def IsQueueKey (cfg : Config) (key : KeyBytes) : Prop :=
  key = slot cfg headIndex ∨ key = slot cfg tailIndex ∨ ∃ i : UInt32, key = slot cfg i

/-- Updates that name none of the queue's own keys. -/
def AvoidsQueue (cfg : Config) (updates : List (KeyBytes × Option ValueBytes)) : Prop :=
  ∀ u ∈ updates, ¬IsQueueKey cfg u.1

section Moves

variable {cfg : Config}

/-- A head move writes keys of the queue. -/
theorem isQueueKey_of_mem_headMoves {head index : UInt32} :
    ∀ u ∈ headMoves cfg head index, IsQueueKey cfg u.1 := by
  intro u hu
  rcases List.mem_append.mp hu with hu | hu
  · obtain ⟨i, _, rfl⟩ := List.mem_map.mp hu
    exact .inr (.inr ⟨i, rfl⟩)
  · obtain rfl := List.mem_singleton.mp hu
    exact .inl rfl

/-- So does a push. -/
theorem isQueueKey_of_mem_pushMoves {tail : UInt32} {data : ValueBytes} :
    ∀ u ∈ pushMoves cfg tail data, IsQueueKey cfg u.1 := by
  intro u hu
  rcases List.mem_cons.mp hu with rfl | hu
  · exact .inr (.inr ⟨tail, rfl⟩)
  · obtain rfl := List.mem_singleton.mp hu
    exact .inr (.inl rfl)

/-- Such writes leave every other key. -/
theorem writeAll_of_not_isQueueKey {us : List (KeyBytes × Option ValueBytes)}
    (hus : ∀ u ∈ us, IsQueueKey cfg u.1) {key : KeyBytes} (hkey : ¬IsQueueKey cfg key)
    (store : Store) : writeAll us store key = store key := by
  refine writeAll_of_forall_ne (fun u hu he => hkey ?_) store
  rw [← he]
  exact hus u hu

/-- Queue moves change queue keys only. -/
theorem queueMoves_of_not_isQueueKey {key : KeyBytes} (hkey : ¬IsQueueKey cfg key)
    (actions : List ActionBytes) (store : Store) :
    queueMoves cfg actions store key = store key := by
  induction actions generalizing store with
  | nil => rfl
  | cons raw actions ih =>
    rw [queueMoves, List.foldl_cons, ← queueMoves, ih]
    refine writeAll_of_not_isQueueKey (fun u hu => ?_) hkey store
    unfold actionMoves at hu
    split at hu
    · -- a head move
      exact isQueueKey_of_mem_headMoves u hu
    · -- a reply, or bytes that do not decode: no write
      exact nomatch hu

end Moves

section Keys

variable {cfg : Config} (hroom : cfg.HasRoom)
include hroom

/-- The head and the tail have two keys. -/
theorem slot_head_ne_tail : slot cfg headIndex ≠ slot cfg tailIndex := by
  rw [ne_eq, slot_inj hroom (by simp) (by simp)]
  decide

/-- An entry key is one byte shorter than the keys of head and tail. -/
theorem slot_index_ne (i : UInt32) (index : FixedBytes 5) : slot cfg i ≠ slot cfg index := by
  rw [ne_eq, slot_inj hroom (by simp) (by simp)]
  intro h
  have hlen := congrArg List.length h
  simp at hlen

/-- Two indices have two keys. -/
theorem slot_index_inj {i j : UInt32} : slot cfg i = slot cfg j ↔ i = j := by
  rw [slot_inj hroom (by simp) (by simp)]
  exact ⟨fun h => encode_injective h, fun h => by rw [h]⟩

end Keys

/-! ## The abstraction relation -/

/-- An entry stores `n`, absent standing for 0. -/
def IndexEntry (v : Option ValueBytes) (n : Nat) : Prop :=
  (v = none ∧ n = 0) ∨ v = some (indexValue (UInt32.ofNat n))

/-- An entry reads as the number that it stores. -/
theorem IndexEntry.read {v : Option ValueBytes} {n : Nat} (h : IndexEntry v n) :
    readIndex v = some (UInt32.ofNat n) := by
  rcases h with ⟨rfl, rfl⟩ | rfl
  · rfl
  · rw [readIndex_indexValue]

/-- The store holds exactly this queue. -/
structure Represents (cfg : Config) (store : Store)
    (q : BoundedFifo ValueBytes cfg.queueCapacity.toNat) : Prop where
  tail : IndexEntry (store (slot cfg tailIndex)) q.pushed.length
  head : IndexEntry (store (slot cfg headIndex)) q.consumed
  entry : ∀ i : UInt32, store (slot cfg i) = q.peek i.toNat

/-- An empty store represents the empty queue. -/
theorem represents_empty (cfg : Config) : Represents cfg (fun _ => none) .empty where
  tail := .inl ⟨rfl, rfl⟩
  head := .inl ⟨rfl, rfl⟩
  entry i := by simp [BoundedFifo.peek, BoundedFifo.empty]

private theorem toNat_ofNat {n : Nat} (h : n < 2 ^ 32) : (UInt32.ofNat n).toNat = n :=
  UInt32.toNat_ofNat_of_lt' h

private theorem ofNat_inj {i : UInt32} {n : Nat} (h : n < 2 ^ 32) :
    i = UInt32.ofNat n ↔ i.toNat = n := by
  rw [← UInt32.toNat_inj, toNat_ofNat h]

/-- As numbers, saturating subtraction is truncated subtraction. -/
theorem toNat_saturatingSub (a b : UInt32) :
    (saturatingSub a b).toNat = a.toNat - b.toNat := by
  unfold saturatingSub
  split
  · -- the difference would be negative
    rename_i h
    rw [UInt32.lt_iff_toNat_lt] at h
    simp; omega
  · rename_i h
    rw [UInt32.lt_iff_toNat_lt] at h
    exact UInt32.toNat_sub_of_le a b (UInt32.le_iff_toNat_le.mpr (by omega))

namespace Represents

variable {cfg : Config} {store : Store} {q q' : BoundedFifo ValueBytes cfg.queueCapacity.toNat}

/-- Updates outside the queue's keys do not change the queue. -/
theorem updates (h : Represents cfg store q) {us : List (KeyBytes × Option ValueBytes)}
    (havoid : AvoidsQueue cfg us) : Represents cfg (writeAll us store) q := by
  have hkey : ∀ key, IsQueueKey cfg key → writeAll us store key = store key := by
    intro key hk
    exact writeAll_of_forall_ne (fun u hu he => havoid u hu (by rw [he]; exact hk)) store
  exact {
    tail := by rw [hkey _ (.inr (.inl rfl))]; exact h.tail
    head := by rw [hkey _ (.inl rfl)]; exact h.head
    entry := fun i => by rw [hkey _ (.inr (.inr ⟨i, rfl⟩))]; exact h.entry i }

/-- A push appends the message under the next index and advances the tail. -/
theorem push (hroom : cfg.HasRoom) (h : Represents cfg store q) {data : ValueBytes}
    (hlt : q.pushed.length < 2 ^ 32) (hq : q.push? data = some q') :
    Represents cfg (writeAll (pushMoves cfg (UInt32.ofNat q.pushed.length) data) store) q' := by
  obtain ⟨_, hp, hc⟩ := BoundedFifo.push?_eq_some.mp hq
  constructor
  · -- the tail entry is written last
    simp only [pushMoves, writeAll_cons, writeAll_nil, Function.update_self, hp,
      List.length_append, List.length_singleton]
    right
    rw [UInt32.ofNat_add]; rfl
  · -- neither of the two keys written is that of the head
    simp only [pushMoves, writeAll_cons, writeAll_nil,
      Function.update_of_ne (slot_head_ne_tail hroom),
      Function.update_of_ne (slot_index_ne hroom _ headIndex).symm, hc]
    exact h.head
  · intro i
    simp only [pushMoves, writeAll_cons, writeAll_nil,
      Function.update_of_ne (slot_index_ne hroom i tailIndex), BoundedFifo.peek_push? hq]
    by_cases hi : i.toNat = q.pushed.length
    · -- the entry just written
      rw [if_pos hi, (ofNat_inj hlt).mpr hi, Function.update_self]
    · -- an entry of another index has another key
      rw [if_neg hi, Function.update_of_ne, h.entry i]
      rw [ne_eq, slot_index_inj hroom, ofNat_inj hlt]
      exact hi

/-- What the head move does to each key: the entries below the new head are gone. -/
theorem writeAll_headMoves (hroom : cfg.HasRoom) (store : Store) (head index : UInt32) :
    (writeAll (headMoves cfg head index) store (slot cfg headIndex) = some (indexValue index)) ∧
      (∀ i, head ≤ i → i < index → writeAll (headMoves cfg head index) store (slot cfg i) = none) ∧
      (∀ key, key ≠ slot cfg headIndex → (∀ i, head ≤ i → i < index → key ≠ slot cfg i) →
        writeAll (headMoves cfg head index) store key = store key) := by
  simp only [headMoves, writeAll_append, writeAll_cons, writeAll_nil]
  refine ⟨Function.update_self .., fun i hlo hhi => ?_, fun key hkey hrange => ?_⟩
  · rw [Function.update_of_ne (slot_index_ne hroom i headIndex)]
    -- the loop only removes, and this entry is in its range
    refine writeAll_of_removed (fun u hu => ?_) ⟨(slot cfg i, none), ?_, rfl⟩ store
    · obtain ⟨j, _, rfl⟩ := List.mem_map.mp hu
      rfl
    · exact List.mem_map_of_mem (mem_rangeU32.mpr ⟨hlo, hhi⟩)
  · -- no write of the loop names the key
    rw [Function.update_of_ne hkey]
    refine writeAll_of_forall_ne (fun u hu he => ?_) store
    obtain ⟨i, hi, rfl⟩ := List.mem_map.mp hu
    obtain ⟨hlo, hhi⟩ := mem_rangeU32.mp hi
    exact hrange i hlo hhi he.symm

/-- A head move consumes the messages below the new head. -/
theorem moveHead (hroom : cfg.HasRoom) (h : Represents cfg store q) {index : UInt32}
    (hlt : q.pushed.length < 2 ^ 32) (hq : q.consumeTo? index.toNat = some q') :
    Represents cfg (writeAll (headMoves cfg (UInt32.ofNat q.consumed) index) store) q' := by
  obtain ⟨hin, hp, hc⟩ := BoundedFifo.consumeTo?_eq_some.mp hq
  obtain ⟨hheadw, hgone, hkeep⟩ :=
    writeAll_headMoves hroom store (UInt32.ofNat q.consumed) index
  have hcons : (UInt32.ofNat q.consumed).toNat = q.consumed :=
    toNat_ofNat (Nat.lt_of_le_of_lt q.consumed_le hlt)
  constructor
  · -- the tail entry is not among the keys written
    rw [hkeep _ (slot_head_ne_tail hroom).symm
      (fun i _ _ => (slot_index_ne hroom i tailIndex).symm), hp]
    exact h.tail
  · rw [hheadw, hc]
    exact .inr (by rw [UInt32.ofNat_toNat])
  · intro i
    rw [BoundedFifo.peek_consumeTo? hq]
    by_cases hi : q.consumed ≤ i.toNat ∧ i.toNat < index.toNat
    · -- one of the entries consumed
      rw [if_pos hi]
      exact hgone i (UInt32.le_iff_toNat_le.mpr (hcons.symm ▸ hi.1))
        (UInt32.lt_iff_toNat_lt.mpr hi.2)
    · -- an entry outside the range of the loop
      rw [if_neg hi, hkeep _ (slot_index_ne hroom i headIndex), h.entry i]
      intro j hlo hhi he
      rw [(slot_index_inj hroom).mp he] at hi
      exact hi ⟨hcons ▸ UInt32.le_iff_toNat_le.mp hlo, UInt32.lt_iff_toNat_lt.mp hhi⟩

end Represents

/-! ## What a queue answers -/

/-- The queue functions of the anchor answer, in state `s`, as the FIFO `q` prescribes. -/
structure Implements (cfg : Config) (name : H256) (s : State AccountId)
    (q : BoundedFifo ValueBytes cfg.queueCapacity.toNat) : Prop where
  tail : (queueTail cfg name s : Exec DispatchError UInt32) = .ok (UInt32.ofNat q.pushed.length)
  head : (queueHead cfg name s : Exec DispatchError UInt32) = .ok (UInt32.ofNat q.consumed)
  len : (queueLen cfg name s : Exec DispatchError UInt32) =
    .ok (UInt32.ofNat (q.pushed.length - q.consumed))
  len_le : q.pushed.length - q.consumed ≤ cfg.queueCapacity.toNat
  entry : ∀ i : UInt32, (queueGet cfg name i s : Exec DispatchError (Option ValueBytes)) =
    .ok (q.peek i.toNat)
  /-- A push is answered with the next index exactly when the name is claimed and the
      queue is not full. -/
  push : ∀ data, (∃ s', pushMessage cfg name data s = .ok (UInt32.ofNat q.pushed.length, s')) ↔
    (s.submitterByNames.lookup name).isSome ∧
      q.pushed.length - q.consumed < cfg.queueCapacity.toNat
  /-- Otherwise it is an error value. -/
  push_err : ∀ data, ¬((s.submitterByNames.lookup name).isSome ∧
      q.pushed.length - q.consumed < cfg.queueCapacity.toNat) →
    ∃ e, pushMessage cfg name data s = .error (.err e)
  /-- A head move is accepted exactly between head and tail. -/
  moveHead : ∀ x, (∃ s', queueHeadSet cfg name x s = .ok s') ↔
    q.consumed ≤ x.toNat ∧ x.toNat ≤ q.pushed.length
  /-- It removes the messages below the new head, stores the new head, and changes no
      other entry of any store. -/
  moveHead_effect : ∀ x s', queueHeadSet cfg name x s = .ok s' →
    s'.states name (slot cfg headIndex) = some (indexValue x) ∧
    (∀ i : UInt32, q.consumed ≤ i.toNat → i.toNat < x.toNat → s'.states name (slot cfg i) = none) ∧
    ∀ m key, (m = name → key ≠ slot cfg headIndex ∧
        ∀ i : UInt32, q.consumed ≤ i.toNat → i.toNat < x.toNat → key ≠ slot cfg i) →
      s'.states m key = s.states m key

/-- A store that represents a queue makes the pallet's functions answer by it. -/
theorem Represents.implements {cfg : Config} (hroom : cfg.HasRoom) {name : H256}
    {s : State AccountId} {q : BoundedFifo ValueBytes cfg.queueCapacity.toNat}
    (h : Represents cfg (s.states name) q) (hlt : q.pushed.length < 2 ^ 32) :
    Implements cfg name s q := by
  have hhead := h.head.read
  have htail := h.tail.read
  have hcle := q.consumed_le
  have hcons : (UInt32.ofNat q.consumed).toNat = q.consumed := toNat_ofNat (by omega)
  have hpush : (UInt32.ofNat q.pushed.length).toNat = q.pushed.length := toNat_ofNat hlt
  have hsub : saturatingSub (UInt32.ofNat q.pushed.length) (UInt32.ofNat q.consumed) =
      UInt32.ofNat (q.pushed.length - q.consumed) := by
    rw [ofNat_inj (by omega), toNat_saturatingSub, hcons, hpush]
  have hcap : saturatingSub (UInt32.ofNat q.pushed.length) (UInt32.ofNat q.consumed) <
      cfg.queueCapacity ↔ q.pushed.length - q.consumed < cfg.queueCapacity.toNat := by
    rw [UInt32.lt_iff_toNat_lt, toNat_saturatingSub, hcons, hpush]
  have hin : ∀ x : UInt32, (UInt32.ofNat q.consumed ≤ x ∧ x ≤ UInt32.ofNat q.pushed.length) ↔
      q.consumed ≤ x.toNat ∧ x.toNat ≤ q.pushed.length := by
    intro x
    rw [UInt32.le_iff_toNat_le, UInt32.le_iff_toNat_le, hcons, hpush]
  refine {
    tail := by rw [queueTail_of_room hroom, htail]; rfl
    head := by rw [queueHead_of_room hroom, hhead]; rfl
    len := ?_
    len_le := q.pending_le
    entry := fun i => ?_
    push := fun data => ?_
    push_err := fun data hno => ?_
    moveHead := fun x => ?_
    moveHead_effect := fun x s' hmove => ?_ }
  · -- the length is the difference of the two reads
    simp only [queueLen, queueHead_of_room hroom, queueTail_of_room hroom, hhead, htail, expect,
      hsub, bind, Except.bind, pure, Except.pure]
  · have hkey : (queueKey cfg i : Exec DispatchError KeyBytes) = .ok (slot cfg i) :=
      queueKey_of_room hroom (by simp)
    simp only [queueGet, hkey, h.entry i, bind, Except.bind, pure, Except.pure]
  · -- a push goes through exactly when both of its checks do
    rw [pushMessage_of_room hroom data hhead htail, ← hcap]
    by_cases hname : (s.submitterByNames.lookup name).isSome
    · rw [if_pos hname]
      split <;> simp_all
    · rw [if_neg hname]
      simp [hname]
  · -- and either check fails with an error value
    rw [pushMessage_of_room hroom data hhead htail]
    rw [← hcap] at hno
    by_cases hname : (s.submitterByNames.lookup name).isSome
    · rw [if_pos hname, if_neg fun hlt => hno ⟨hname, hlt⟩]
      exact ⟨_, rfl⟩
    · rw [if_neg hname]
      exact ⟨_, rfl⟩
  · -- a head move is guarded by the bounds, read as machine integers
    rw [queueHeadSet_of_room hroom x hhead htail, ← hin x]
    split <;> simp_all
  · rw [queueHeadSet_of_room hroom x hhead htail] at hmove
    split at hmove
    · obtain rfl := Except.ok.inj hmove
      obtain ⟨hset, hgone, hkeep⟩ :=
        writeAll_headMoves hroom (s.states name) (UInt32.ofNat q.consumed) x
      have hrange : ∀ i : UInt32, UInt32.ofNat q.consumed ≤ i ∧ i < x ↔
          q.consumed ≤ i.toNat ∧ i.toNat < x.toNat := by
        intro i
        rw [UInt32.le_iff_toNat_le, UInt32.lt_iff_toNat_lt, hcons]
      refine ⟨?_, fun i hlo hhi => ?_, fun m key hother => ?_⟩
      · rw [applyUpdates_states_self]; exact hset
      · obtain ⟨hlo, hhi⟩ := (hrange i).mpr ⟨hlo, hhi⟩
        rw [applyUpdates_states_self]; exact hgone i hlo hhi
      · by_cases hm : m = name
        · subst hm
          obtain ⟨hne, hnr⟩ := hother rfl
          rw [applyUpdates_states_self]
          refine hkeep key hne fun i hlo hhi => ?_
          obtain ⟨hlo, hhi⟩ := (hrange i).mp ⟨hlo, hhi⟩
          exact hnr i hlo hhi
        · -- the store of another name
          rw [applyUpdates_states_of_ne _ _ _ hm]
    · cases hmove

/-! ## Runs -/

/-- The head after a list of actions that was accepted on a queue with head `c`. -/
def headAfter (c : Nat) (actions : List ActionBytes) : Nat :=
  actions.foldl (fun c raw =>
    match decodeAction raw with
    | some (.setQueueHead index) => index.toNat
    | _ => c) c

/-- An action loop is a sequence of head moves on the queue of its name. -/
theorem Represents.actions {cfg : Config} (hroom : cfg.HasRoom)
    {onResponse : OnResponse AccountId R} {name : H256} {who : AccountId}
    {actions : List ActionBytes} {s s' : State AccountId × R}
    {q : BoundedFifo ValueBytes cfg.queueCapacity.toNat}
    (h : Represents cfg (s.1.states name) q) (hlt : q.pushed.length < 2 ^ 32)
    (hloop : actions.foldlM (execAction cfg onResponse name who) s = .ok s') :
    ∃ q' : BoundedFifo ValueBytes cfg.queueCapacity.toNat, q'.pushed = q.pushed ∧
      q'.consumed = headAfter q.consumed actions ∧ Represents cfg (s'.1.states name) q' ∧
      ∃ taken, q.pending = taken ++ q'.pending := by
  induction actions generalizing s q with
  | nil =>
    obtain rfl := Exec.pure_eq_ok.mp hloop
    exact ⟨q, rfl, rfl, h, [], rfl⟩
  | cons raw actions ih =>
    rw [List.foldlM_cons] at hloop
    obtain ⟨s₁, hact, hloop⟩ := Exec.bind_eq_ok.mp hloop
    obtain ⟨hstep, hreply | hmove⟩ := execAction_eq_ok hact
    · -- a reply leaves the anchor's storage alone
      obtain ⟨data, hdec, _⟩ := hreply
      have h₁ : Represents cfg (s₁.1.states name) q := by
        rw [hstep, actionMoves, hdec]; exact h
      obtain ⟨q', hp, hc, hr, htaken⟩ := ih h₁ hlt hloop
      refine ⟨q', hp, ?_, hr, htaken⟩
      rw [hc, headAfter, headAfter, List.foldl_cons, hdec]
    · -- the pallet's own check is the guard of `consumeTo?`
      obtain ⟨index, hdec, hset, _⟩ := hmove
      have hbetween := ((h.implements hroom hlt).moveHead index).mp ⟨_, hset⟩
      obtain ⟨q₁, hq₁⟩ : ∃ q₁, q.consumeTo? index.toNat = some q₁ :=
        ⟨⟨q.pushed, index.toNat, hbetween.2, by have := q.pending_le; omega⟩,
          BoundedFifo.consumeTo?_eq_some.mpr ⟨hbetween, rfl, rfl⟩⟩
      obtain ⟨_, hp₁, hc₁⟩ := BoundedFifo.consumeTo?_eq_some.mp hq₁
      have h₁ : Represents cfg (s₁.1.states name) q₁ := by
        rw [hstep, actionMoves, hdec, applyUpdates_states_self, h.head.read]
        exact h.moveHead hroom hlt hq₁
      obtain ⟨q', hp, hc, hr, taken, htaken⟩ := ih h₁ (hp₁ ▸ hlt) hloop
      refine ⟨q', hp.trans hp₁, ?_, hr, (q.pushed.take index.toNat).drop q.consumed ++ taken, ?_⟩
      · rw [hc, hc₁, headAfter, headAfter, List.foldl_cons, hdec]
      · rw [BoundedFifo.pending_consumeTo? hq₁, htaken, List.append_assoc]

variable [DecidableEq AccountId]

/-- An event of the anchor. -/
abbrev AnchorEvent (AccountId R : Type) :=
  Transactional.Event (State AccountId × R) (Op AccountId) (Failure DispatchError) Answer

/-- The message that an event pushed to a name. -/
def pushOf (name : H256) (e : AnchorEvent AccountId R) : Option ValueBytes :=
  match e.op, e.result with
  | .pushMessage n data, .ok _ => if n = name then some data else none
  | _, _ => none

/-- The transaction that an event executed on a name. -/
def rollupOf (name : H256) (e : AnchorEvent AccountId R) : Option RollupTx :=
  match e.op, e.result with
  | .rollup _ n tx _, .ok _ => if n = name then some tx else none
  | _, _ => none

omit [DecidableEq AccountId] in
/-- An accepted rollup counts for the name that it is on. -/
theorem rollupOf_of_ok (name : H256) {e : AnchorEvent AccountId R} {a : Answer}
    (hres : e.result = .ok a) {origin : Origin AccountId} {n : H256} {tx : RollupTx} {nonce : U128}
    (hop : e.op = .rollup origin n tx nonce) :
    rollupOf name e = if n = name then some tx else none := by
  simp [rollupOf, hop, hres]

omit [DecidableEq AccountId] in
/-- A refused one does not count. -/
theorem rollupOf_of_error (name : H256) {e : AnchorEvent AccountId R} {f : Failure DispatchError}
    (hres : e.result = .error f) : rollupOf name e = none := by
  simp [rollupOf, hres]

/-- The messages pushed to a name, oldest first. -/
def pushedIn (name : H256) (past : List (AnchorEvent AccountId R)) : List ValueBytes :=
  past.filterMap (pushOf name)

/-- The transactions accepted on a name, oldest first. -/
def rollupsIn (name : H256) (past : List (AnchorEvent AccountId R)) : List RollupTx :=
  past.filterMap (rollupOf name)

/-- How many messages of a name have been consumed. -/
def consumedIn (name : H256) (past : List (AnchorEvent AccountId R)) : Nat :=
  (rollupsIn name past).foldl (fun c tx => headAfter c tx.actions) 0

section Runs

variable {cfg : Config} {onResponse : OnResponse AccountId R}

/-- What a step does to the store of one name: nothing, one push, or one rollup. -/
theorem store_step (cfg : Config) (onResponse : OnResponse AccountId R) (name : H256)
    (s : State AccountId × R) (o : Op AccountId) :
    let e := event (apply cfg onResponse) s o
    (pushOf name e = none ∧ rollupOf name e = none ∧ e.post.1.states name = s.1.states name) ∨
    (∃ data id, pushOf name e = some data ∧ rollupOf name e = none ∧
      pushMessage cfg name data s.1 = .ok (id, e.post.1)) ∨
    (∃ origin tx nonce, pushOf name e = none ∧ rollupOf name e = some tx ∧
      rollup cfg onResponse origin name tx nonce s = .ok e.post) := by
  intro e
  cases hres : apply cfg onResponse o s with
  | error f =>
    -- the storage layer is discarded
    have he : e.result = .error f := event_result_eq_error.mpr hres
    have hpost : e.post = s := step_of_error hres
    exact .inl ⟨by simp [pushOf, he], by simp [rollupOf, he], by rw [hpost]⟩
  | ok p =>
    obtain ⟨a, s'⟩ := p
    have hpost : e.post = s' := step_of_ok hres
    have he : e.result = .ok a := event_result_eq_ok.mpr (by rw [hres, step_of_ok hres])
    cases o with
    | claimName origin n =>
      -- a claim writes the table of owners only
      obtain ⟨_, hclaim, _⟩ := apply_claimName_eq_ok.mp hres
      obtain ⟨who, _, _, hs'⟩ := claimName_eq_ok.mp hclaim
      exact .inl ⟨rfl, rfl, by rw [hpost, hs']⟩
    | rollup origin n tx nonce =>
      obtain ⟨_, hroll⟩ := apply_rollup_eq_ok.mp hres
      by_cases hn : n = name
      · subst hn
        exact .inr (.inr ⟨origin, tx, nonce, rfl, by simp [rollupOf, he, e], by rw [hpost, hroll]⟩)
      · -- a rollup of another name
        refine .inl ⟨rfl, by simp [rollupOf, he, e, hn], ?_⟩
        rw [hpost, (rollup_effect hroll).2.1 name (Ne.symm hn)]
    | pushMessage n data =>
      obtain ⟨id, _, hpush, _⟩ := apply_pushMessage_eq_ok.mp hres
      by_cases hn : n = name
      · subst hn
        exact .inr (.inl ⟨data, id, by simp [pushOf, he, e], rfl, by rw [hpost, hpush]⟩)
      · -- a push to another name
        refine .inl ⟨by simp [pushOf, he, e, hn], rfl, ?_⟩
        obtain ⟨_, _, _, _, _, hs'⟩ := pushMessage_eq_ok hpush
        rw [hpost, hs', applyUpdates_states_of_ne _ _ _ (Ne.symm hn)]

/-- The updates of the rollups accepted on `name` leave the queue's keys alone. -/
def LeavesQueueAlone (cfg : Config) (name : H256) (e : AnchorEvent AccountId R) : Prop :=
  ∀ tx, rollupOf name e = some tx → AvoidsQueue cfg tx.updates

/-- It is enough to look at the transactions submitted. -/
theorem leavesQueueAlone_of_ops {s : State AccountId × R} {name : H256} {ops : List (Op AccountId)}
    (h : ∀ origin tx nonce, Op.rollup origin name tx nonce ∈ ops → AvoidsQueue cfg tx.updates) :
    ∀ e ∈ history (apply cfg onResponse) s ops, LeavesQueueAlone cfg name e := by
  intro e he tx htx
  obtain ⟨before, o, after, rfl, rfl⟩ := mem_history he
  unfold rollupOf at htx
  split at htx
  · rename_i origin n tx' nonce _ hop _
    split at htx
    · rename_i hn
      obtain rfl := Option.some.inj htx
      rw [event_op] at hop
      subst hop hn
      exact h origin tx' nonce (by simp)
    · exact nomatch htx
  · exact nomatch htx

omit [DecidableEq AccountId] in
/-- One more event pushes what it pushes behind the rest. -/
theorem pushedIn_concat (name : H256) (past : List (AnchorEvent AccountId R))
    (e : AnchorEvent AccountId R) :
    pushedIn name (past ++ [e]) = pushedIn name past ++ (pushOf name e).toList := by
  cases h : pushOf name e <;> simp [pushedIn, h]

omit [DecidableEq AccountId] in
/-- One more event moves the head by the actions of its rollup, if it is one. -/
theorem consumedIn_concat (name : H256) (past : List (AnchorEvent AccountId R))
    (e : AnchorEvent AccountId R) : consumedIn name (past ++ [e]) =
      ((rollupOf name e).map fun tx => headAfter (consumedIn name past) tx.actions).getD
        (consumedIn name past) := by
  simp only [consumedIn, rollupsIn, List.filterMap_append, List.foldl_append]
  cases h : rollupOf name e <;> simp [h]

/-- One step of the anchor is at most one step of the queue: what waited, with what was
    pushed appended, is what was taken followed by what waits. -/
theorem Represents.step (hroom : cfg.HasRoom) {name : H256} {s : State AccountId × R}
    {q : BoundedFifo ValueBytes cfg.queueCapacity.toNat} (hq : Represents cfg (s.1.states name) q)
    (o : Op AccountId) (hgood : LeavesQueueAlone cfg name (event (apply cfg onResponse) s o))
    (hlt : (q.pushed ++ (pushOf name (event (apply cfg onResponse) s o)).toList).length < 2 ^ 32) :
    ∃ q' : BoundedFifo ValueBytes cfg.queueCapacity.toNat,
      q'.pushed = q.pushed ++ (pushOf name (event (apply cfg onResponse) s o)).toList ∧
      q'.consumed = ((rollupOf name (event (apply cfg onResponse) s o)).map fun tx =>
        headAfter q.consumed tx.actions).getD q.consumed ∧
      Represents cfg ((step (apply cfg onResponse) s o).1.states name) q' ∧
      ∃ taken, q.pending ++ (pushOf name (event (apply cfg onResponse) s o)).toList =
        taken ++ q'.pending := by
  have hlt' : q.pushed.length < 2 ^ 32 := by
    rw [List.length_append] at hlt; omega
  obtain ⟨hnp, hnr, hsame⟩ | ⟨data, id, hpush, hnr, hok⟩ | ⟨origin, tx, nonce, hnp, hroll, hok⟩ :=
    store_step cfg onResponse name s o
  · -- neither a push nor a rollup on this name
    rw [hnp, hnr]
    refine ⟨q, (List.append_nil _).symm, rfl, ?_, [], List.append_nil _⟩
    rw [← event_post, hsame]; exact hq
  · -- the tail read by the push is the length of the abstract queue
    have himpl := hq.implements hroom hlt'
    obtain ⟨_, head, hhead, htail, _, hs'⟩ := pushMessage_eq_ok hok
    obtain rfl : id = UInt32.ofNat q.pushed.length :=
      Option.some.inj (htail.symm.trans hq.tail.read)
    obtain ⟨q', hq'⟩ : ∃ q', q.push? data = some q' := by
      have hroomy := ((himpl.push data).mp ⟨_, hok⟩).2
      exact ⟨⟨q.pushed ++ [data], q.consumed, by have := q.consumed_le; simp; omega,
        by have := q.consumed_le; simp; omega⟩, BoundedFifo.push?_eq_some.mpr ⟨hroomy, rfl, rfl⟩⟩
    obtain ⟨_, hp', hc'⟩ := BoundedFifo.push?_eq_some.mp hq'
    rw [hpush, hnr, Option.toList_some]
    refine ⟨q', hp', hc', ?_, [], (BoundedFifo.pending_push? hq').symm⟩
    rw [← event_post, hs', applyUpdates_states_self]
    exact hq.push hroom hlt' hq'
  · -- the updates of the rollup do not touch the queue, its actions consume from it
    obtain ⟨who, _, _, _, s₁, hloop, hs'⟩ := rollup_eq_ok.mp hok
    have hupd : Represents cfg ((applyUpdates name tx.updates s.1).states name) q := by
      rw [applyUpdates_states_self]
      exact hq.updates (hgood tx hroll)
    obtain ⟨q', hp', hc', hr', taken, htaken⟩ := hupd.actions hroom hlt' hloop
    rw [hnp, hroll, Option.toList_none, List.append_nil, List.append_nil]
    refine ⟨q', hp', hc', ?_, taken, htaken⟩
    rw [← event_post, hs']; exact hr'

/-- The store of a name represents the queue of the messages pushed to it, as far as they
    have been consumed, after every run. -/
theorem represents_of_run (hroom : cfg.HasRoom) (r₀ : R) (name : H256) (ops : List (Op AccountId))
    (havoid : ∀ e ∈ history (apply cfg onResponse) (genesis, r₀) ops, LeavesQueueAlone cfg name e)
    (hcount : (pushedIn name (history (apply cfg onResponse) (genesis, r₀) ops)).length < 2 ^ 32) :
    ∃ q : BoundedFifo ValueBytes cfg.queueCapacity.toNat,
      q.pushed = pushedIn name (history (apply cfg onResponse) (genesis, r₀) ops) ∧
      q.consumed = consumedIn name (history (apply cfg onResponse) (genesis, r₀) ops) ∧
      Represents cfg ((run (apply cfg onResponse) (genesis, r₀) ops).1.states name) q := by
  refine history_induction
    (P := fun past s => (pushedIn name past).length < 2 ^ 32 →
      ∃ q : BoundedFifo ValueBytes cfg.queueCapacity.toNat, q.pushed = pushedIn name past ∧
        q.consumed = consumedIn name past ∧ Represents cfg (s.1.states name) q)
    (fun _ => ⟨.empty, rfl, rfl, represents_empty cfg⟩) ?_ ops havoid hcount
  intro past s o hgood ih hlt
  rw [pushedIn_concat] at hlt ⊢
  rw [consumedIn_concat]
  obtain ⟨q, hp, hc, hq⟩ := ih (by rw [List.length_append] at hlt; omega)
  rw [← hp] at hlt
  obtain ⟨q', hp', hc', hq', _⟩ := hq.step hroom o hgood hlt
  exact ⟨q', by rw [hp', hp], by rw [hc', hc], hq'⟩

/-- The messages of a name that wait to be consumed, oldest first. -/
def waitingIn (name : H256) (past : List (AnchorEvent AccountId R)) : List ValueBytes :=
  (pushedIn name past).drop (consumedIn name past)

/-- Messages wait in the order in which they were pushed: every event appends what it pushed
    and takes from the front, and no more wait than the queue has room for. -/
theorem waitingIn_concat (hroom : cfg.HasRoom) (r₀ : R) (name : H256) (ops : List (Op AccountId))
    (o : Op AccountId)
    (havoid : ∀ e ∈ history (apply cfg onResponse) (genesis, r₀) (ops ++ [o]),
      LeavesQueueAlone cfg name e)
    (hcount : (pushedIn name (history (apply cfg onResponse) (genesis, r₀) (ops ++ [o]))).length <
      2 ^ 32) :
    let past := history (apply cfg onResponse) (genesis, r₀) ops
    let e := event (apply cfg onResponse) (run (apply cfg onResponse) (genesis, r₀) ops) o
    (∃ taken, waitingIn name past ++ (pushOf name e).toList =
      taken ++ waitingIn name (past ++ [e])) ∧
      (waitingIn name (past ++ [e])).length ≤ cfg.queueCapacity.toNat := by
  intro past e
  rw [history_concat] at havoid hcount
  rw [pushedIn_concat] at hcount
  obtain ⟨q, hp, hc, hq⟩ := represents_of_run hroom r₀ name ops
    (fun e' he' => havoid e' (List.mem_append_left _ he'))
    (by rw [List.length_append] at hcount; omega)
  rw [← hp] at hcount
  obtain ⟨q', hp', hc', _, htaken⟩ :=
    hq.step hroom o (havoid e (List.mem_append_right _ (List.mem_singleton_self e))) hcount
  have hbefore : waitingIn name past = q.pending := by
    rw [waitingIn, BoundedFifo.pending, hp, hc]
  have hafter : waitingIn name (past ++ [e]) = q'.pending := by
    rw [waitingIn, BoundedFifo.pending, pushedIn_concat, consumedIn_concat, hp', hc', hp, hc]
  rw [hbefore, hafter]
  exact ⟨htaken, q'.length_pending_le⟩

/-- A message is answered with its position among the messages pushed to its name. -/
theorem pushOf_eq_some_iff (hroom : cfg.HasRoom) (r₀ : R) (name : H256) (ops : List (Op AccountId))
    (havoid : ∀ e ∈ history (apply cfg onResponse) (genesis, r₀) ops, LeavesQueueAlone cfg name e)
    (hcount : (pushedIn name (history (apply cfg onResponse) (genesis, r₀) ops)).length < 2 ^ 32)
    (o : Op AccountId) (m : ValueBytes) :
    let e := event (apply cfg onResponse) (run (apply cfg onResponse) (genesis, r₀) ops) o
    pushOf name e = some m ↔ e.op = .pushMessage name m ∧ e.result = .ok (.pushed (UInt32.ofNat
      (pushedIn name (history (apply cfg onResponse) (genesis, r₀) ops)).length)) := by
  intro e
  obtain ⟨q, hp, _, hq⟩ := represents_of_run hroom r₀ name ops havoid hcount
  constructor
  · intro h
    unfold pushOf at h
    split at h
    · rename_i n data a hop hres
      split at h
      · rename_i hn
        obtain rfl := Option.some.inj h
        subst hn
        refine ⟨hop, ?_⟩
        have hok := event_result_eq_ok.mp hres
        rw [show o = _ from hop] at hok
        obtain ⟨id, ha, hpush, _⟩ := apply_pushMessage_eq_ok.mp hok
        obtain ⟨_, _, _, htail, _⟩ := pushMessage_eq_ok hpush
        rw [hres, ha, ← hp, Option.some.inj (htail.symm.trans hq.tail.read)]
      · exact nomatch h
    · exact nomatch h
  · rintro ⟨hop, hres⟩
    simp [pushOf, hop, hres]

private theorem getElem?_append_toList {α : Type} (l : List α) (o : Option α) (k : Nat) (a : α) :
    (l ++ o.toList)[k]? = some a ↔ l[k]? = some a ∨ o = some a ∧ k = l.length := by
  cases o with
  | none => simp
  | some b => grind

/-- The message pushed under an id is the one at that position. -/
theorem pushedIn_getElem?_eq_some (hroom : cfg.HasRoom) (r₀ : R) (name : H256)
    (ops : List (Op AccountId))
    (havoid : ∀ e ∈ history (apply cfg onResponse) (genesis, r₀) ops, LeavesQueueAlone cfg name e)
    (hcount : (pushedIn name (history (apply cfg onResponse) (genesis, r₀) ops)).length < 2 ^ 32)
    (i : UInt32) (m : ValueBytes) :
    (pushedIn name (history (apply cfg onResponse) (genesis, r₀) ops))[i.toNat]? = some m ↔
      ∃ e ∈ history (apply cfg onResponse) (genesis, r₀) ops,
        e.op = .pushMessage name m ∧ e.result = .ok (.pushed i) := by
  induction ops using List.reverseRecOn with
  | nil => simp [pushedIn]
  | append_singleton ops o ih =>
    rw [history_concat] at havoid hcount ⊢
    rw [pushedIn_concat, List.length_append] at hcount
    have havoid' := fun e he => havoid e (List.mem_append_left _ he)
    have ih := ih havoid' (by omega)
    have hlast := pushOf_eq_some_iff hroom r₀ name ops havoid' (by omega) o m
    simp only at hlast
    generalize event (apply cfg onResponse) (run (apply cfg onResponse) (genesis, r₀) ops) o = e
      at hcount hlast ⊢
    -- the last operation pushed `m` under `i` exactly when `i` is the position it appended at
    have hnew : (e.op = .pushMessage name m ∧ e.result = .ok (.pushed i)) ↔ pushOf name e = some m ∧
        i.toNat = (pushedIn name (history (apply cfg onResponse) (genesis, r₀) ops)).length := by
      constructor
      · rintro ⟨hop, hres⟩
        have hpush : pushOf name e = some m := by simp [pushOf, hop, hres]
        have hid := hres.symm.trans (hlast.mp hpush).2
        simp only [Except.ok.injEq, Answer.pushed.injEq] at hid
        rw [hpush, Option.toList_some, List.length_singleton] at hcount
        exact ⟨hpush, by rw [hid, toNat_ofNat (by omega)]⟩
      · rintro ⟨hpush, hi⟩
        rw [← hi, UInt32.ofNat_toNat] at hlast
        exact hlast.mp hpush
    rw [pushedIn_concat, getElem?_append_toList]
    simp only [List.mem_append, List.mem_singleton, or_and_right, exists_or, exists_eq_left, ← ih,
      hnew]

/-- The queue of every name refines a bounded FIFO. After any run from genesis in which
    accepted updates leave the queue's keys alone and fewer than 2^32 messages were pushed
    to the name, its queue functions answer as the queue of the pushed messages, and so
    they do in the middle of a rollup; a push that is refused changes nothing. -/
theorem queue_refines_fifo (cfg : Config) (hroom : cfg.HasRoom)
    (onResponse : OnResponse AccountId R) (r₀ : R) (name : H256) (ops : List (Op AccountId))
    (havoid : ∀ e ∈ history (apply cfg onResponse) (genesis, r₀) ops, LeavesQueueAlone cfg name e)
    (hcount : (pushedIn name (history (apply cfg onResponse) (genesis, r₀) ops)).length < 2 ^ 32) :
    let past := history (apply cfg onResponse) (genesis, r₀) ops
    let s := run (apply cfg onResponse) (genesis, r₀) ops
    ∃ q : BoundedFifo ValueBytes cfg.queueCapacity.toNat,
      q.pushed = pushedIn name past ∧ q.consumed = consumedIn name past ∧
      Implements cfg name s.1 q ∧
      (∀ data, ¬((s.1.submitterByNames.lookup name).isSome ∧
          q.pushed.length - q.consumed < cfg.queueCapacity.toNat) →
        step (apply cfg onResponse) s (.pushMessage name data) = s) ∧
      (∀ who us actions s₁, AvoidsQueue cfg us →
        actions.foldlM (execAction cfg onResponse name who) (applyUpdates name us s.1, s.2) =
          .ok s₁ →
        ∃ q' : BoundedFifo ValueBytes cfg.queueCapacity.toNat, q'.pushed = q.pushed ∧
          q'.consumed = headAfter q.consumed actions ∧ Implements cfg name s₁.1 q') := by
  intro past s
  obtain ⟨q, hp, hc, hq⟩ := represents_of_run hroom r₀ name ops havoid hcount
  have hlt : q.pushed.length < 2 ^ 32 := hp ▸ hcount
  have himpl := hq.implements hroom hlt
  refine ⟨q, hp, hc, himpl, fun data hno => ?_, fun who us actions s₁ hus hloop => ?_⟩
  · -- a push that is answered with an error is rolled back
    obtain ⟨e, herr⟩ := himpl.push_err data hno
    refine step_of_error (e := .err (.anchor e)) ?_
    simp only [apply, s, herr]
    rfl
  · -- in a rollup, after its updates and some of its actions
    have hupd : Represents cfg ((applyUpdates name us s.1).states name) q := by
      rw [applyUpdates_states_self]
      exact hq.updates hus
    obtain ⟨q', hp', hc', hq', _⟩ := hupd.actions hroom hlt hloop
    exact ⟨q', hp', hc', hq'.implements hroom (hp' ▸ hlt)⟩

def sampleOps : List (Op Nat) :=
  [.claimName (.signed 0) sampleName,
    .pushMessage sampleName ⟨[7], by decide⟩,
    .pushMessage sampleName ⟨[8], by decide⟩,
    .rollup (.signed 0) sampleName
      ⟨[], [BoundedVec.truncateFrom 256 (encode (Action.setQueueHead 1))], []⟩ 0]

/-- Two messages are pushed, and a rollup of the owner consumes the first. -/
theorem queue_refines_fifo_sample :
    ∃ q : BoundedFifo ValueBytes 128, q.pushed = [⟨[7], by decide⟩, ⟨[8], by decide⟩] ∧
      q.consumed = 1 ∧
      Implements sampleConfig sampleName
        (run (apply sampleConfig OnResponse.unit) (genesis, ()) sampleOps).1 q := by
  have havoid : ∀ e ∈ history (apply sampleConfig OnResponse.unit) (genesis, ()) sampleOps,
      LeavesQueueAlone sampleConfig sampleName e := by
    refine leavesQueueAlone_of_ops fun origin tx nonce hmem => ?_
    simp only [sampleOps, List.mem_cons, reduceCtorEq, Op.rollup.injEq, List.not_mem_nil,
      or_false, false_or] at hmem
    obtain ⟨_, _, rfl, _⟩ := hmem
    intro u hu
    exact absurd hu List.not_mem_nil
  obtain ⟨q, hp, hc, himpl, _⟩ := queue_refines_fifo sampleConfig (by decide) OnResponse.unit ()
    sampleName sampleOps havoid (by decide +kernel)
  exact ⟨q, hp.trans (by decide +kernel), hc.trans (by decide +kernel), himpl⟩

end Runs

end Paraxiom.Anchor
