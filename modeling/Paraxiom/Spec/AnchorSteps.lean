import Paraxiom.ForStd.KvStore
import Paraxiom.Pallets.Anchor

/-!
# What the anchor's functions do

One lemma per function of the anchor. Every effect on storage is a list of updates to the
store of one name: `applyUpdates` is that list applied, and the queue operations are
described by the updates they amount to. Nothing below unfolds a pallet function again.

## Key results

- `queueHeadSet_eq_ok`, `pushMessage_eq_ok`, `claimName_eq_ok`: what a call that succeeds did
- `foldlM_execAction`: the action loop is the queue moves among its actions
- `rollup_eq_ok`: an accepted rollup, as guards and effects
-/

namespace Paraxiom.Anchor

open Scale KvStore

variable {AccountId R ε : Type}

/-! ## Storage updates -/

section Storage

variable (s : State AccountId) (name : H256)

@[simp] theorem setState_states_self (key : KeyBytes) (value : Option ValueBytes) :
    (s.setState name key value).states name = Function.update (s.states name) key value := by
  simp [State.setState]

/-- The stores of other names are left. -/
theorem setState_states_of_ne {m : H256} (h : m ≠ name) (key : KeyBytes)
    (value : Option ValueBytes) : (s.setState name key value).states m = s.states m := by
  simp [State.setState, h]

@[simp] theorem setState_submitterByNames (key : KeyBytes) (value : Option ValueBytes) :
    (s.setState name key value).submitterByNames = s.submitterByNames := rfl

@[simp] theorem setState_events (key : KeyBytes) (value : Option ValueBytes) :
    (s.setState name key value).events = s.events := rfl

@[simp] theorem applyUpdates_nil : applyUpdates name [] s = s := rfl

@[simp] theorem applyUpdates_cons (u : KeyBytes × Option ValueBytes)
    (us : List (KeyBytes × Option ValueBytes)) :
    applyUpdates name (u :: us) s = applyUpdates name us (s.setState name u.1 u.2) := rfl

/-- Updates go on from what others have left. -/
theorem applyUpdates_append (us vs : List (KeyBytes × Option ValueBytes)) :
    applyUpdates name (us ++ vs) s = applyUpdates name vs (applyUpdates name us s) :=
  List.foldl_append

variable (us : List (KeyBytes × Option ValueBytes))

/-- The store of the name itself: the updates in list order. -/
@[simp] theorem applyUpdates_states_self :
    (applyUpdates name us s).states name = writeAll us (s.states name) := by
  induction us generalizing s with
  | nil => rfl
  | cons u us ih => rw [applyUpdates_cons, ih, setState_states_self, writeAll_cons]

/-- No other name's store is touched. -/
theorem applyUpdates_states_of_ne {m : H256} (h : m ≠ name) :
    (applyUpdates name us s).states m = s.states m := by
  induction us generalizing s with
  | nil => rfl
  | cons u us ih => rw [applyUpdates_cons, ih, setState_states_of_ne s name h]

/-- Updates do not change who owns a name. -/
@[simp] theorem applyUpdates_submitterByNames :
    (applyUpdates name us s).submitterByNames = s.submitterByNames := by
  induction us generalizing s with
  | nil => rfl
  | cons u us ih => rw [applyUpdates_cons, ih, setState_submitterByNames]

/-- Nor do they deposit anything. -/
@[simp] theorem applyUpdates_events : (applyUpdates name us s).events = s.events := by
  induction us generalizing s with
  | nil => rfl
  | cons u us ih => rw [applyUpdates_cons, ih, setState_events]

end Storage

/-! ## Queue keys -/

/-- The key that `queue_key` makes when it does not panic. -/
def slot {ι : Type} [Codec ι] (cfg : Config) (index : ι) : KeyBytes :=
  BoundedVec.truncateFrom 128 (cfg.queuePrefix ++ encode index)

/-- `QueuePrefix` leaves room for every index in a 128-byte key. -/
def Config.HasRoom (cfg : Config) : Prop := cfg.queuePrefix.length + 5 ≤ 128

instance (cfg : Config) : Decidable cfg.HasRoom := inferInstanceAs (Decidable (_ ≤ _))

/-- A key that was made is the slot of its index. -/
theorem queueKey_eq_ok {ι : Type} [Codec ι] {cfg : Config} {index : ι} {key : KeyBytes}
    (h : (queueKey cfg index : Exec ε KeyBytes) = .ok key) : key = slot cfg index :=
  (BoundedVec.tryFrom_eq_some (expect_eq_ok.mp h)).1

/-- With room there is a key. -/
theorem queueKey_of_room {ι : Type} [Codec ι] {cfg : Config} (hroom : cfg.HasRoom) {index : ι}
    (hlen : (encode index).length ≤ 5) :
    (queueKey cfg index : Exec ε KeyBytes) = .ok (slot cfg index) := by
  have hle : (cfg.queuePrefix ++ encode index).length ≤ 128 := by
    unfold Config.HasRoom at hroom
    rw [List.length_append]; omega
  rw [queueKey, expect_eq_ok, BoundedVec.tryFrom_of_le hle]
  congr 1
  exact BoundedVec.ext (BoundedVec.truncateFrom_toList_of_le hle).symm

/-- Slots are told apart by the encodings of their indices. -/
theorem slot_inj {ι κ : Type} [Codec ι] [Codec κ] {cfg : Config} (hroom : cfg.HasRoom) {i : ι}
    {j : κ} (hi : (encode i).length ≤ 5) (hj : (encode j).length ≤ 5) :
    slot cfg i = slot cfg j ↔ encode i = encode j := by
  unfold Config.HasRoom at hroom
  -- neither key is cut, so both still end in the encoded index
  have hwi : (cfg.queuePrefix ++ encode i).length ≤ 128 := by rw [List.length_append]; omega
  have hwj : (cfg.queuePrefix ++ encode j).length ≤ 128 := by rw [List.length_append]; omega
  constructor
  · intro h
    have hl := congrArg BoundedVec.toList h
    rw [slot, slot, BoundedVec.truncateFrom_toList_of_le hwi,
      BoundedVec.truncateFrom_toList_of_le hwj] at hl
    exact List.append_cancel_left hl
  · intro h
    rw [slot, slot, h]

/-! ## Reading head and tail -/

/-- The index stored in an entry: absent counts as 0, fewer than four bytes as nothing. -/
def readIndex : Option ValueBytes → Option UInt32
  | none => some 0
  | some bytes => (decode (α := UInt32) bytes.toList).map Prod.fst

/-- The entry that stores an index. -/
def indexValue (value : UInt32) : ValueBytes :=
  ⟨encode value, by rw [length_encode_uint32]; decide⟩

@[simp] theorem readIndex_none : readIndex none = some 0 := rfl

/-- An index that was stored is read back. -/
@[simp] theorem readIndex_indexValue (value : UInt32) :
    readIndex (some (indexValue value)) = some value := by
  simp only [readIndex, indexValue, decode_encode, Option.map_some]

/-- An entry is unreadable exactly when it stores fewer than four bytes. -/
theorem readIndex_isSome_iff (v : Option ValueBytes) :
    (readIndex v).isSome ↔ ∀ bytes, v = some bytes → 4 ≤ bytes.toList.length := by
  cases v with
  | none => simp
  | some bytes => simp [readIndex, decode_uint32_isSome]

/-- A read of the queue is a read of its slot. -/
theorem queueGet_eq_ok {ι : Type} [Codec ι] {cfg : Config} {name : H256} {index : ι}
    {s : State AccountId} {v : Option ValueBytes}
    (h : (queueGet cfg name index s : Exec ε _) = .ok v) : s.states name (slot cfg index) = v := by
  obtain ⟨key, hkey, h⟩ := Exec.bind_eq_ok.mp h
  rw [← queueKey_eq_ok hkey]
  exact Exec.pure_eq_ok.mp h

/-- An index is read from four bytes. -/
theorem queueGetU32_eq_ok {cfg : Config} {name : H256} {index : FixedBytes 5}
    {s : State AccountId} {v : Option UInt32}
    (h : (queueGetU32 cfg name index s : Exec ε _) = .ok v) :
    v = readIndex (s.states name (slot cfg index)) := by
  obtain ⟨entry, hget, h⟩ := Exec.bind_eq_ok.mp h
  rw [queueGet_eq_ok hget]
  split at h <;> exact (Exec.pure_eq_ok.mp h).symm

/-- With room it can be read. -/
theorem queueGetU32_of_room {cfg : Config} (hroom : cfg.HasRoom) (name : H256)
    (index : FixedBytes 5) (s : State AccountId) :
    (queueGetU32 cfg name index s : Exec ε _) =
      .ok (readIndex (s.states name (slot cfg index))) := by
  have hkey : (queueKey cfg index : Exec ε KeyBytes) = .ok (slot cfg index) :=
    queueKey_of_room hroom (by simp)
  simp only [queueGetU32, queueGet, hkey, bind, Except.bind, pure, Except.pure]
  cases s.states name (slot cfg index) <;> rfl

/-- A head that is answered is stored. -/
theorem queueHead_eq_ok {cfg : Config} {name : H256} {s : State AccountId} {head : UInt32}
    (h : (queueHead cfg name s : Exec ε UInt32) = .ok head) :
    readIndex (s.states name (slot cfg headIndex)) = some head := by
  obtain ⟨v, hv, h⟩ := Exec.bind_eq_ok.mp h
  rw [← queueGetU32_eq_ok hv]
  exact expect_eq_ok.mp h

/-- A tail that is answered is stored. -/
theorem queueTail_eq_ok {cfg : Config} {name : H256} {s : State AccountId} {tail : UInt32}
    (h : (queueTail cfg name s : Exec ε UInt32) = .ok tail) :
    readIndex (s.states name (slot cfg tailIndex)) = some tail := by
  obtain ⟨v, hv, h⟩ := Exec.bind_eq_ok.mp h
  rw [← queueGetU32_eq_ok hv]
  exact expect_eq_ok.mp h

/-- With room, the head can only fail to decode. -/
theorem queueHead_of_room {cfg : Config} (hroom : cfg.HasRoom) (name : H256)
    (s : State AccountId) : (queueHead cfg name s : Exec ε UInt32) =
      expect (readIndex (s.states name (slot cfg headIndex)))
        "BUG: Failed to decode queue head" := by
  simp only [queueHead, queueGetU32_of_room hroom, bind, Except.bind]

/-- And so the tail. -/
theorem queueTail_of_room {cfg : Config} (hroom : cfg.HasRoom) (name : H256)
    (s : State AccountId) : (queueTail cfg name s : Exec ε UInt32) =
      expect (readIndex (s.states name (slot cfg tailIndex)))
        "BUG: Failed to decode queue tail" := by
  simp only [queueTail, queueGetU32_of_room hroom, bind, Except.bind]

/-! ## Moving the head and pushing -/

/-- The range holds what is not below its start, and below its end. -/
theorem mem_rangeU32 {start stop i : UInt32} :
    i ∈ rangeU32 start stop ↔ start ≤ i ∧ i < stop := by
  simp only [rangeU32, List.mem_map, List.mem_range'_1, UInt32.le_iff_toNat_le,
    UInt32.lt_iff_toNat_lt]
  constructor
  · rintro ⟨k, ⟨hlo, hhi⟩, rfl⟩
    have hlt : k < UInt32.size := by have := stop.toNat_lt; simp only [UInt32.size]; omega
    rw [UInt32.toNat_ofNat_of_lt' hlt]
    omega
  · rintro ⟨hlo, hhi⟩
    exact ⟨i.toNat, by omega, UInt32.ofNat_toNat⟩

/-- The updates that `queue_head_set` amounts to: the entries from the old head up to the
    new one are removed, and the new head is stored. -/
def headMoves (cfg : Config) (head index : UInt32) : List (KeyBytes × Option ValueBytes) :=
  (rangeU32 head index).map (fun i => (slot cfg i, none)) ++
    [(slot cfg headIndex, some (indexValue index))]

/-- The updates that `push_message` amounts to. -/
def pushMoves (cfg : Config) (tail : UInt32) (data : ValueBytes) :
    List (KeyBytes × Option ValueBytes) :=
  [(slot cfg tail, some data), (slot cfg tailIndex, some (indexValue (tail + 1)))]

private theorem queueRemove_eq_ok {cfg : Config} {name : H256} {i : UInt32}
    {s s' : State AccountId} (h : (queueRemove cfg name i s : Exec ε _) = .ok s') :
    s' = s.setState name (slot cfg i) none := by
  obtain ⟨key, hkey, h⟩ := Exec.bind_eq_ok.mp h
  rw [← Exec.pure_eq_ok.mp h, queueKey_eq_ok hkey]

private theorem queueSetU32_eq_ok {cfg : Config} {name : H256} {index : FixedBytes 5}
    {value : UInt32} {s s' : State AccountId}
    (h : (queueSetU32 cfg name index value s : Exec ε _) = .ok s') :
    s' = s.setState name (slot cfg index) (some (indexValue value)) := by
  obtain ⟨v, hv, h⟩ := Exec.bind_eq_ok.mp h
  obtain ⟨key, hkey, h⟩ := Exec.bind_eq_ok.mp h
  have hval : v = indexValue value :=
    Option.some.inj ((expect_eq_ok.mp hv).symm.trans (BoundedVec.tryFrom_toList (indexValue value)))
  rw [← Exec.pure_eq_ok.mp h, queueKey_eq_ok hkey, hval]

private theorem queueSetU32_of_room {cfg : Config} (hroom : cfg.HasRoom) (name : H256)
    (index : FixedBytes 5) (value : UInt32) (s : State AccountId) :
    (queueSetU32 cfg name index value s : Exec ε _) =
      .ok (s.setState name (slot cfg index) (some (indexValue value))) := by
  have hkey : (queueKey cfg index : Exec ε KeyBytes) = .ok (slot cfg index) :=
    queueKey_of_room hroom (by simp)
  have hval : BoundedVec.tryFrom 2048 (encode value) = some (indexValue value) :=
    BoundedVec.tryFrom_toList (indexValue value)
  simp only [queueSetU32, queueSet, hkey, hval, expect, bind, Except.bind, pure, Except.pure]

/-- The removal loop, for any list of indices. -/
private theorem foldlM_queueRemove {cfg : Config} {name : H256} {l : List UInt32}
    {s s' : State AccountId}
    (h : (l.foldlM (fun s i => queueRemove cfg name i s) s : Exec ε _) = .ok s') :
    s' = applyUpdates name (l.map fun i => (slot cfg i, none)) s := by
  induction l generalizing s with
  | nil => exact (Exec.pure_eq_ok.mp h).symm
  | cons i l ih =>
    rw [List.foldlM_cons] at h
    obtain ⟨s₁, h₁, h⟩ := Exec.bind_eq_ok.mp h
    rw [List.map_cons, applyUpdates_cons, ← queueRemove_eq_ok h₁]
    exact ih h

private theorem foldlM_queueRemove_of_room {cfg : Config} (hroom : cfg.HasRoom) (name : H256)
    (l : List UInt32) (s : State AccountId) :
    (l.foldlM (fun s i => queueRemove cfg name i s) s : Exec ε _) =
      .ok (applyUpdates name (l.map fun i => (slot cfg i, none)) s) := by
  induction l generalizing s with
  | nil => rfl
  | cons i l ih =>
    have hkey : (queueKey cfg i : Exec ε KeyBytes) = .ok (slot cfg i) :=
      queueKey_of_room hroom (by simp)
    rw [List.foldlM_cons]
    simp only [queueRemove, hkey, bind, Except.bind, pure, Except.pure] at ih ⊢
    exact ih _

/-- A head move that succeeds lies between head and tail. -/
theorem queueHeadSet_eq_ok {cfg : Config} {name : H256} {index : UInt32}
    {s s' : State AccountId} (h : queueHeadSet cfg name index s = .ok s') :
    ∃ head tail, readIndex (s.states name (slot cfg headIndex)) = some head ∧
      readIndex (s.states name (slot cfg tailIndex)) = some tail ∧
      head ≤ index ∧ index ≤ tail ∧ s' = applyUpdates name (headMoves cfg head index) s := by
  obtain ⟨head, hhead, h⟩ := Exec.bind_eq_ok.mp h
  obtain ⟨tail, htail, h⟩ := Exec.bind_eq_ok.mp h
  obtain ⟨_, hens, h⟩ := Exec.bind_eq_ok.mp h
  obtain ⟨s₁, hloop, h⟩ := Exec.bind_eq_ok.mp h
  obtain ⟨hle, hge⟩ := ensure_eq_ok.mp hens
  refine ⟨head, tail, queueHead_eq_ok hhead, queueTail_eq_ok htail, hle, hge, ?_⟩
  rw [headMoves, applyUpdates_append, ← foldlM_queueRemove hloop]
  exact queueSetU32_eq_ok h

/-- `queue_head_set` on a queue whose head and tail are readable. -/
theorem queueHeadSet_of_room {cfg : Config} (hroom : cfg.HasRoom) {name : H256} (index : UInt32)
    {s : State AccountId} {head tail : UInt32}
    (hhead : readIndex (s.states name (slot cfg headIndex)) = some head)
    (htail : readIndex (s.states name (slot cfg tailIndex)) = some tail) :
    queueHeadSet cfg name index s =
      if head ≤ index ∧ index ≤ tail then .ok (applyUpdates name (headMoves cfg head index) s)
      else .error (.err (.anchor .invalidQueueHead)) := by
  by_cases hin : head ≤ index ∧ index ≤ tail
  -- past the check every step goes through: the keys fit
  · simp only [queueHeadSet, queueHead_of_room hroom, queueTail_of_room hroom, hhead, htail,
      expect, ensure_of hin, foldlM_queueRemove_of_room hroom, queueSetU32_of_room hroom, bind,
      Except.bind, if_pos hin, headMoves, applyUpdates_append]
    rfl
  · simp only [queueHeadSet, queueHead_of_room hroom, queueTail_of_room hroom, hhead, htail,
      expect, ensure_of_not hin, bind, Except.bind, if_neg hin]

/-- A push that succeeds met a claimed name whose queue was not full. -/
theorem pushMessage_eq_ok {cfg : Config} {name : H256} {data : ValueBytes}
    {s s' : State AccountId} {id : UInt32} (h : pushMessage cfg name data s = .ok (id, s')) :
    (s.submitterByNames.lookup name).isSome ∧
      ∃ head, readIndex (s.states name (slot cfg headIndex)) = some head ∧
        readIndex (s.states name (slot cfg tailIndex)) = some id ∧
        saturatingSub id head < cfg.queueCapacity ∧
        s' = applyUpdates name (pushMoves cfg id data) s := by
  obtain ⟨_, hname, h⟩ := Exec.bind_eq_ok.mp h
  obtain ⟨len, hlen, h⟩ := Exec.bind_eq_ok.mp h
  obtain ⟨_, hens, h⟩ := Exec.bind_eq_ok.mp h
  obtain ⟨tail, htail, h⟩ := Exec.bind_eq_ok.mp h
  obtain ⟨s₁, hset, h⟩ := Exec.bind_eq_ok.mp h
  obtain ⟨s₂, htailset, h⟩ := Exec.bind_eq_ok.mp h
  obtain ⟨key, hkey, hput⟩ := Exec.bind_eq_ok.mp hset
  obtain ⟨rfl, rfl⟩ := Prod.mk.inj (Exec.pure_eq_ok.mp h)
  -- the length was computed from the same tail
  obtain ⟨tail', htail', hlen⟩ := Exec.bind_eq_ok.mp hlen
  obtain ⟨head, hhead, hsub⟩ := Exec.bind_eq_ok.mp hlen
  have htails : tail' = tail :=
    Option.some.inj ((queueTail_eq_ok htail').symm.trans (queueTail_eq_ok htail))
  subst htails
  refine ⟨ensure_eq_ok.mp hname, head, queueHead_eq_ok hhead, queueTail_eq_ok htail, ?_, ?_⟩
  -- the length that was checked, then the two entries written
  · rw [Exec.pure_eq_ok.mp hsub]; exact ensure_eq_ok.mp hens
  · rw [queueSetU32_eq_ok htailset, ← Exec.pure_eq_ok.mp hput, queueKey_eq_ok hkey]; rfl

/-- `push_message` on a queue whose head and tail are readable. -/
theorem pushMessage_of_room {cfg : Config} (hroom : cfg.HasRoom) {name : H256}
    (data : ValueBytes) {s : State AccountId} {head tail : UInt32}
    (hhead : readIndex (s.states name (slot cfg headIndex)) = some head)
    (htail : readIndex (s.states name (slot cfg tailIndex)) = some tail) :
    pushMessage cfg name data s =
      if (s.submitterByNames.lookup name).isSome then
        if saturatingSub tail head < cfg.queueCapacity then
          .ok (tail, applyUpdates name (pushMoves cfg tail data) s)
        else .error (.err .queueIsFull)
      else .error (.err .nameNotExist) := by
  have hkey : (queueKey cfg tail : Exec Error KeyBytes) = .ok (slot cfg tail) :=
    queueKey_of_room hroom (by simp)
  have hlen : (queueLen cfg name s : Exec Error UInt32) = .ok (saturatingSub tail head) := by
    simp only [queueLen, queueHead_of_room hroom, queueTail_of_room hroom, hhead, htail, expect,
      bind, Except.bind, pure, Except.pure]
  by_cases hname : (s.submitterByNames.lookup name).isSome
  · by_cases hroomy : saturatingSub tail head < cfg.queueCapacity
    · simp only [pushMessage, hlen, queueTail_of_room hroom, htail, expect, queueSet, hkey,
        queueTailSet, queueSetU32_of_room hroom, ensure_of hname, ensure_of hroomy, bind,
        Except.bind, pure, Except.pure, if_pos hname, if_pos hroomy]
      rfl
    · simp only [pushMessage, hlen, ensure_of hname, ensure_of_not hroomy, bind, Except.bind,
        if_pos hname, if_neg hroomy]
  · simp only [pushMessage, ensure_of_not hname, bind, Except.bind, if_neg hname]

/-- A queue whose length can be computed has room for its keys. -/
theorem hasRoom_of_queueLen {cfg : Config} {name : H256} {s : State AccountId} {len : UInt32}
    (h : (queueLen cfg name s : Exec ε UInt32) = .ok len) : cfg.HasRoom := by
  -- computing the length starts by making the key of the tail
  obtain ⟨_, htail, _⟩ := Exec.bind_eq_ok.mp h
  obtain ⟨_, hget, _⟩ := Exec.bind_eq_ok.mp htail
  obtain ⟨_, hentry, _⟩ := Exec.bind_eq_ok.mp hget
  obtain ⟨_, hkey, _⟩ := Exec.bind_eq_ok.mp hentry
  obtain ⟨_, hle⟩ := BoundedVec.tryFrom_eq_some (expect_eq_ok.mp hkey)
  rw [List.length_append, length_encode_fixedBytes] at hle
  exact hle

/-- A push succeeds exactly on a claimed name whose queue has a length below capacity. -/
theorem exists_pushMessage_eq_ok {cfg : Config} {name : H256} (data : ValueBytes)
    {s : State AccountId} : (∃ id s', pushMessage cfg name data s = .ok (id, s')) ↔
      (s.submitterByNames.lookup name).isSome ∧
        ∃ len, (queueLen cfg name s : Exec Error UInt32) = .ok len ∧ len < cfg.queueCapacity := by
  constructor
  · rintro ⟨id, s', h⟩
    obtain ⟨_, hname, h⟩ := Exec.bind_eq_ok.mp h
    obtain ⟨len, hlen, h⟩ := Exec.bind_eq_ok.mp h
    obtain ⟨_, hens, _⟩ := Exec.bind_eq_ok.mp h
    exact ⟨ensure_eq_ok.mp hname, len, hlen, ensure_eq_ok.mp hens⟩
  · rintro ⟨hname, len, hlen, hlt⟩
    -- the length was computed, so the keys fit and head and tail can be read
    have hroom := hasRoom_of_queueLen hlen
    obtain ⟨tail, htail, hlen⟩ := Exec.bind_eq_ok.mp hlen
    obtain ⟨head, hhead, hlen⟩ := Exec.bind_eq_ok.mp hlen
    rw [← Exec.pure_eq_ok.mp hlen] at hlt
    exact ⟨_, _, by rw [pushMessage_of_room hroom data (queueHead_eq_ok hhead)
      (queueTail_eq_ok htail), if_pos hname, if_pos hlt]⟩

/-- A message that was pushed found room for its keys. -/
theorem hasRoom_of_pushMessage {cfg : Config} {name : H256} {data : ValueBytes} {id : UInt32}
    {s s' : State AccountId} (h : pushMessage cfg name data s = .ok (id, s')) : cfg.HasRoom := by
  obtain ⟨_, _, hlen, _⟩ := (exists_pushMessage_eq_ok data).mp ⟨_, _, h⟩
  exact hasRoom_of_queueLen hlen

/-! ## Calls -/

section Calls

variable [DecidableEq AccountId]

/-- Only the owner passes. -/
theorem ensureNameOwner_eq_ok {name : H256} {who : AccountId} {s : State AccountId} {u : Unit} :
    ensureNameOwner name who s = .ok u ↔ s.submitterByNames.lookup name = some who := by
  unfold ensureNameOwner
  rw [Exec.bind_eq_ok]
  constructor
  · rintro ⟨owner, howner, h⟩
    rw [okOr_eq_ok.mp howner, ensure_eq_ok.mp h]
  · intro h
    exact ⟨who, okOr_eq_ok.mpr h, ensure_eq_ok.mpr rfl⟩

omit [DecidableEq AccountId] in
/-- A claim that succeeds found the name free. -/
theorem claimName_eq_ok {origin : Origin AccountId} {name : H256} {s s' : State AccountId} :
    claimName origin name s = .ok s' ↔ ∃ who, origin = .signed who ∧
      s.submitterByNames.lookup name = none ∧
      s' = { s with
        submitterByNames := s.submitterByNames.insert name who
        events := s.events ++ [.nameClaimed who name] } := by
  unfold claimName
  simp only [Exec.bind_eq_ok, ensureSigned_eq_ok, ensure_eq_ok, Exec.pure_eq_ok]
  constructor
  · rintro ⟨who, horigin, _, hnone, h⟩
    exact ⟨who, horigin, hnone, h.symm⟩
  · rintro ⟨who, horigin, hnone, h⟩
    exact ⟨who, horigin, (), hnone, h.symm⟩

/-- A condition holds of a store. -/
def Cond.Holds (store : Store) : Cond → Prop
  | .eq key value => store key = value

omit [DecidableEq AccountId] in
/-- The conditions of a rollup are all met, or it fails. -/
theorem checkConds_eq_ok {name : H256} {s : State AccountId} {conds : List Cond} {u : Unit} :
    checkConds name s conds = .ok u ↔ ∀ c ∈ conds, c.Holds (s.states name) := by
  induction conds with
  | nil => simp [checkConds, pure, Except.pure]
  | cons c conds ih =>
    cases c with
    | eq key value =>
      simp only [checkConds, Exec.bind_eq_ok, ensure_eq_ok, ih, List.mem_cons, forall_eq_or_imp,
        Cond.Holds, exists_const]

/-- The action that an entry of `RollupTx.actions` decodes to. -/
abbrev decodeAction (raw : ActionBytes) : Option Action :=
  (decode (α := Action) raw.toList).map Prod.fst

/-- The head that an action asks for. -/
def setHeadOf (raw : ActionBytes) : Option UInt32 :=
  match decodeAction raw with
  | some (.setQueueHead index) => some index
  | _ => none

/-- The head move that an action asks of the store it runs against. -/
def actionMoves (cfg : Config) (store : Store) (raw : ActionBytes) :
    List (KeyBytes × Option ValueBytes) :=
  match decodeAction raw with
  | some (.setQueueHead index) =>
    headMoves cfg ((readIndex (store (slot cfg headIndex))).getD 0) index
  | _ => []

/-- The queue moves of a list of actions, in order. -/
def queueMoves (cfg : Config) (actions : List ActionBytes) (store : Store) : Store :=
  actions.foldl (fun st raw => writeAll (actionMoves cfg st raw) st) store

variable {cfg : Config} {onResponse : OnResponse AccountId R} {name : H256} {who : AccountId}

omit [DecidableEq AccountId] in
/-- An entry that is no action fails. -/
theorem execAction_of_none {s : State AccountId × R} {raw : ActionBytes}
    (h : decodeAction raw = none) : execAction cfg onResponse name who s raw =
      .error (.err (.anchor .failedToDecodeAction)) := by
  rw [execAction, show (decode raw.toList).map Prod.fst = none from h]
  rfl

omit [DecidableEq AccountId] in
/-- A head move leaves the handler's state. -/
theorem execAction_of_setQueueHead {s : State AccountId × R} {raw : ActionBytes} {index : UInt32}
    (h : decodeAction raw = some (.setQueueHead index)) :
    execAction cfg onResponse name who s raw =
      (queueHeadSet cfg name index s.1).map fun anchor => (anchor, s.2) := by
  rw [execAction, show (decode raw.toList).map Prod.fst = _ from h]
  rfl

omit [DecidableEq AccountId] in
/-- A reply leaves the anchor. -/
theorem execAction_of_reply {s : State AccountId × R} {raw data : ActionBytes}
    (h : decodeAction raw = some (.reply data)) : execAction cfg onResponse name who s raw =
      (onResponse name who data.toList s.2).map fun r => (s.1, r) := by
  rw [execAction, show (decode raw.toList).map Prod.fst = _ from h]
  rfl

omit [DecidableEq AccountId] in
/-- One action either answers a message or moves the head. -/
theorem execAction_eq_ok {s s' : State AccountId × R} {raw : ActionBytes}
    (h : execAction cfg onResponse name who s raw = .ok s') :
    s'.1 = applyUpdates name (actionMoves cfg (s.1.states name) raw) s.1 ∧
      ((∃ data, decodeAction raw = some (.reply data) ∧
          onResponse name who data.toList s.2 = .ok s'.2) ∨
        (∃ index, decodeAction raw = some (.setQueueHead index) ∧
          queueHeadSet cfg name index s.1 = .ok s'.1 ∧ s'.2 = s.2)) := by
  obtain ⟨act, hact, h⟩ := Exec.bind_eq_ok.mp h
  have hact := okOr_eq_ok.mp hact
  cases act with
  | reply data =>
    obtain ⟨r, hr, h⟩ := Exec.bind_eq_ok.mp h
    rw [← Exec.pure_eq_ok.mp h, actionMoves, show decodeAction raw = _ from hact]
    exact ⟨rfl, .inl ⟨data, rfl, hr⟩⟩
  | setQueueHead index =>
    -- the head that `actionMoves` reads is the one that `queue_head_set` found
    obtain ⟨a, ha, h⟩ := Exec.bind_eq_ok.mp h
    rw [← Exec.pure_eq_ok.mp h, actionMoves, show decodeAction raw = _ from hact]
    obtain ⟨head, _, hhead, _, _, _, hupd⟩ := queueHeadSet_eq_ok ha
    refine ⟨?_, .inr ⟨index, rfl, ha, rfl⟩⟩
    simp only [hhead, Option.getD_some]
    exact hupd

omit [DecidableEq AccountId] in
/-- The action loop changes the store of its name by its queue moves, and nothing else of
    the anchor. -/
theorem foldlM_execAction {actions : List ActionBytes} {s s' : State AccountId × R}
    (h : actions.foldlM (execAction cfg onResponse name who) s = .ok s') :
    s'.1.states name = queueMoves cfg actions (s.1.states name) ∧
      (∀ m, m ≠ name → s'.1.states m = s.1.states m) ∧
      s'.1.submitterByNames = s.1.submitterByNames ∧ s'.1.events = s.1.events := by
  induction actions generalizing s with
  | nil =>
    have h := Exec.pure_eq_ok.mp h
    subst h
    exact ⟨rfl, fun _ _ => rfl, rfl, rfl⟩
  | cons raw actions ih =>
    rw [List.foldlM_cons] at h
    obtain ⟨s₁, h₁, h⟩ := Exec.bind_eq_ok.mp h
    obtain ⟨hstep, _⟩ := execAction_eq_ok h₁
    obtain ⟨hself, hother, hnames, hevents⟩ := ih h
    refine ⟨?_, fun m hm => ?_, ?_, ?_⟩
    · rw [hself, hstep, applyUpdates_states_self]; rfl
    · rw [hother m hm, hstep, applyUpdates_states_of_ne _ _ _ hm]
    · rw [hnames, hstep, applyUpdates_submitterByNames]
    · rw [hevents, hstep, applyUpdates_events]

omit [DecidableEq AccountId] in
/-- What every accepted answer keeps, the action loop keeps of the handler's state. -/
theorem foldlM_execAction_invariant {I : R → Prop}
    (hresp : ∀ data r r', onResponse name who data r = .ok r' → I r → I r')
    {actions : List ActionBytes} {s s' : State AccountId × R}
    (h : actions.foldlM (execAction cfg onResponse name who) s = .ok s') (hs : I s.2) : I s'.2 := by
  refine Exec.foldlM_invariant (I := fun s => I s.2) ?_ h hs
  intro s raw s₁ hact hkeep
  obtain ⟨_, ⟨data, _, hr⟩ | ⟨_, _, _, hr⟩⟩ := execAction_eq_ok hact
  · exact hresp _ _ _ hr hkeep
  · -- a head move does not call the handler
    rw [hr]; exact hkeep

/-- An accepted rollup: signed by the owner, every condition true of the store before, then
    the updates, then the actions. -/
theorem rollup_eq_ok {origin : Origin AccountId} {tx : RollupTx} {nonce : U128}
    {s s' : State AccountId × R} :
    rollup cfg onResponse origin name tx nonce s = .ok s' ↔
      ∃ who, origin = .signed who ∧ s.1.submitterByNames.lookup name = some who ∧
        (∀ c ∈ tx.conds, c.Holds (s.1.states name)) ∧
        ∃ s₁, tx.actions.foldlM (execAction cfg onResponse name who)
            (applyUpdates name tx.updates s.1, s.2) = .ok s₁ ∧
          s' = ({ s₁.1 with events := s₁.1.events ++ [.rollupExecuted who name nonce] }, s₁.2) := by
  unfold rollup
  simp only [Exec.bind_eq_ok, ensureSigned_eq_ok, ensureNameOwner_eq_ok, checkConds_eq_ok,
    Exec.pure_eq_ok]
  constructor
  · rintro ⟨who, horigin, _, howner, _, hconds, s₁, hloop, h⟩
    exact ⟨who, horigin, howner, hconds, s₁, hloop, h.symm⟩
  · rintro ⟨who, horigin, howner, hconds, s₁, hloop, h⟩
    exact ⟨who, horigin, (), howner, (), hconds, s₁, hloop, h.symm⟩

/-- The effect of an accepted rollup on the anchor: the store of the name gets the updates
    and then the queue moves. -/
theorem rollup_effect {origin : Origin AccountId} {tx : RollupTx} {nonce : U128}
    {s s' : State AccountId × R}
    (h : rollup cfg onResponse origin name tx nonce s = .ok s') :
    s'.1.states name = queueMoves cfg tx.actions (writeAll tx.updates (s.1.states name)) ∧
      (∀ m, m ≠ name → s'.1.states m = s.1.states m) ∧
      s'.1.submitterByNames = s.1.submitterByNames := by
  obtain ⟨who, _, _, _, s₁, hloop, rfl⟩ := rollup_eq_ok.mp h
  obtain ⟨hself, hother, hnames, _⟩ := foldlM_execAction hloop
  refine ⟨?_, fun m hm => ?_, ?_⟩
  · rw [hself, applyUpdates_states_self]
  · rw [hother m hm, applyUpdates_states_of_ne _ _ _ hm]
  · rw [hnames, applyUpdates_submitterByNames]

/-! ## The machine -/

/-- A claim in a run. -/
theorem apply_claimName_eq_ok {origin : Origin AccountId} {a : Answer}
    {s s' : State AccountId × R} :
    apply cfg onResponse (.claimName origin name) s = .ok (a, s') ↔
      a = .done ∧ claimName origin name s.1 = .ok s'.1 ∧ s'.2 = s.2 := by
  obtain ⟨anchor', r'⟩ := s'
  simp only [apply, Exec.bind_eq_ok, Exec.pure_eq_ok, Prod.mk.injEq]
  constructor
  · rintro ⟨anchor, h, ha, rfl, hr⟩
    exact ⟨ha.symm, h, hr.symm⟩
  · rintro ⟨ha, h, hr⟩
    exact ⟨anchor', h, ha.symm, rfl, hr.symm⟩

/-- A rollup in a run. -/
theorem apply_rollup_eq_ok {origin : Origin AccountId} {tx : RollupTx} {nonce : U128}
    {a : Answer} {s s' : State AccountId × R} :
    apply cfg onResponse (.rollup origin name tx nonce) s = .ok (a, s') ↔
      a = .done ∧ rollup cfg onResponse origin name tx nonce s = .ok s' := by
  simp only [apply, Exec.bind_eq_ok, Exec.pure_eq_ok, Prod.mk.injEq]
  constructor
  · rintro ⟨s₁, h, ha, rfl⟩
    exact ⟨ha.symm, h⟩
  · rintro ⟨ha, h⟩
    exact ⟨s', h, ha.symm, rfl⟩

/-- A push in a run answers the id of the message. -/
theorem apply_pushMessage_eq_ok {data : ValueBytes} {a : Answer} {s s' : State AccountId × R} :
    apply cfg onResponse (.pushMessage name data) s = .ok (a, s') ↔
      ∃ id, a = .pushed id ∧ pushMessage cfg name data s.1 = .ok (id, s'.1) ∧ s'.2 = s.2 := by
  obtain ⟨anchor', r'⟩ := s'
  simp only [apply, Exec.bind_eq_ok, Exec.mapErr_eq_ok, Exec.pure_eq_ok, Prod.mk.injEq]
  constructor
  · rintro ⟨p, h, ha, hanchor, hr⟩
    exact ⟨p.1, ha.symm, by rw [← hanchor]; exact h, hr.symm⟩
  · rintro ⟨id, ha, h, hr⟩
    exact ⟨(id, anchor'), h, ha.symm, rfl, hr.symm⟩

end Calls

end Paraxiom.Anchor
