import Paraxiom.ForStd.Scale

/-!
# What the pallets take from FRAME

Dispatch results, origins, the error enumerations of the pallets and the storage maps the
runtime iterates. A Rust panic is kept apart from an error value: `Failure.panic` carries
the message of the `expect`, `unwrap` or `todo!` that was reached.
-/

namespace Paraxiom

open Scale

abbrev H256 := FixedBytes 32
abbrev U128 := BitVec 128
abbrev ParaId := UInt32

/-- `T::BlockNumber`, as a number without a bound: a sum that the runtime makes in its `u32` is
    taken not to wrap. -/
abbrev BlockNumber := Nat

/-! ## Errors -/

/-- `Error` of the off-chain rollup anchor. -/
inductive Anchor.Error where
  | nameAlreadyClaimed
  | nameNotExist
  | notOwner
  | condNotMet
  | failedToDecodeAction
  | queueIsFull
  | invalidQueueHead
deriving DecidableEq

/-- `Error` of the oracle pallet. -/
inductive Oracle.Error where
  | failedToAuthenticateResponse
  | failedToDecodeResponse
  | failedToPushResponse
  | failedToPushMessageToAnchor
  | failedToGetApiFeed
  | apiFeedNotActive
  | failedToEncodeData
  | failedToFindOracleFeeds
  | failedToGetFeedRequest
deriving DecidableEq

/-- `Error` of the para-oracle pallet. -/
inductive ParaOracle.Error where
  | tooLarge
  | noPermission
  | alreadyFeeded
  | xcmSendError
deriving DecidableEq

/-- `DispatchError`: what a dispatchable returns when it fails. -/
inductive DispatchError where
  | badOrigin
  | cannotLookup
  | anchor (error : Anchor.Error)
  | oracle (error : Oracle.Error)
  | paraOracle (error : ParaOracle.Error)
deriving DecidableEq

/-- A call that does not return a value returns an error or panics. -/
inductive Failure (ε : Type) where
  | err (error : ε)
  | panic (message : String)
deriving DecidableEq

/-- The result of a Rust function that returns `Result<α, ε>` and may panic. -/
abbrev Exec (ε α : Type) := Except (Failure ε) α

namespace Exec

variable {ε δ α β : Type}

/-- The function returned, with `Ok` or `Err`. -/
def NoPanic (x : Exec ε α) : Prop := ∀ message, x ≠ .error (.panic message)

/-- `map_err`: rewrites an error value and lets a panic through. -/
def mapErr (f : ε → δ) : Exec ε α → Exec δ α
  | .ok a => .ok a
  | .error (.err e) => .error (.err (f e))
  | .error (.panic message) => .error (.panic message)

/-- A computation in two parts succeeds when both do. -/
theorem bind_eq_ok {x : Exec ε α} {f : α → Exec ε β} {b : β} :
    (x >>= f) = .ok b ↔ ∃ a, x = .ok a ∧ f a = .ok b := by
  cases x <;> simp [bind, Except.bind]

theorem pure_eq_ok {a b : α} : (pure a : Exec ε α) = .ok b ↔ a = b := by
  simp [pure, Except.pure]

theorem mapErr_eq_ok {f : ε → δ} {x : Exec ε α} {a : α} : mapErr f x = .ok a ↔ x = .ok a := by
  match x with
  | .ok b => simp [mapErr]
  | .error (.err e) => simp [mapErr]
  | .error (.panic m) => simp [mapErr]

theorem noPanic_ok (a : α) : NoPanic (.ok a : Exec ε α) := fun _ h => nomatch h

theorem noPanic_err (e : ε) : NoPanic (.error (.err e) : Exec ε α) := fun _ h => nomatch h

/-- And panics only if one of them does. -/
theorem noPanic_bind {x : Exec ε α} {f : α → Exec ε β} (hx : NoPanic x)
    (hf : ∀ a, x = .ok a → NoPanic (f a)) : NoPanic (x >>= f) := by
  match x with
  | .ok a => exact hf a rfl
  | .error (.err e) => exact noPanic_err e
  | .error (.panic m) => exact absurd rfl (hx m)

theorem noPanic_mapErr {f : ε → δ} {x : Exec ε α} (hx : NoPanic x) : NoPanic (mapErr f x) := by
  match x with
  | .ok a => exact noPanic_ok a
  | .error (.err e) => exact noPanic_err (f e)
  | .error (.panic m) => exact absurd rfl (hx m)

/-- What every step of a loop keeps, a loop that returns keeps. -/
theorem foldlM_invariant {I : β → Prop} {f : β → α → Exec ε β} {l : List α}
    (hstep : ∀ b a b', f b a = .ok b' → I b → I b') {b b' : β} (h : l.foldlM f b = .ok b')
    (hb : I b) : I b' := by
  induction l generalizing b with
  | nil =>
    obtain rfl := pure_eq_ok.mp h
    exact hb
  | cons a l ih =>
    rw [List.foldlM_cons] at h
    obtain ⟨b₁, h₁, h⟩ := bind_eq_ok.mp h
    exact ih h (hstep b a b₁ h₁ hb)

/-- A loop whose every step returns from the states it meets returns. -/
theorem noPanic_foldlM {I : β → Prop} {f : β → α → Exec ε β} {l : List α}
    (hstep : ∀ b a, a ∈ l → I b → NoPanic (f b a) ∧ ∀ b', f b a = .ok b' → I b')
    {b : β} (hb : I b) : NoPanic (l.foldlM f b) := by
  induction l generalizing b with
  | nil => exact noPanic_ok b
  | cons a l ih =>
    rw [List.foldlM_cons]
    obtain ⟨hnp, hinv⟩ := hstep b a List.mem_cons_self hb
    exact noPanic_bind hnp fun b' hb' =>
      ih (fun c x hx => hstep c x (List.mem_cons_of_mem _ hx)) (hinv b' hb')

end Exec

/-- `ensure!(c, e)`. -/
def ensure {ε : Type} (c : Prop) [Decidable c] (e : ε) : Exec ε Unit :=
  if c then .ok () else .error (.err e)

/-- `Option::ok_or`. -/
def okOr {ε α : Type} (o : Option α) (e : ε) : Exec ε α :=
  match o with
  | some a => .ok a
  | none => .error (.err e)

/-- `expect`, on an option or on a result whose error is discarded. -/
def expect {ε α : Type} (o : Option α) (message : String) : Exec ε α :=
  match o with
  | some a => .ok a
  | none => .error (.panic message)

section Combinators

variable {ε α : Type}

/-- A check that succeeds. -/
theorem ensure_eq_ok {c : Prop} [Decidable c] {e : ε} {u : Unit} : ensure c e = .ok u ↔ c := by
  unfold ensure
  split <;> simp_all

theorem ensure_of {c : Prop} [Decidable c] (h : c) (e : ε) : ensure c e = .ok () := if_pos h

theorem ensure_of_not {c : Prop} [Decidable c] (h : ¬c) (e : ε) :
    ensure c e = .error (.err e) := if_neg h

/-- A value that is there. -/
theorem okOr_eq_ok {o : Option α} {e : ε} {a : α} : okOr o e = .ok a ↔ o = some a := by
  cases o <;> simp [okOr]

/-- An `expect` that does not panic. -/
theorem expect_eq_ok {o : Option α} {m : String} {a : α} :
    (expect o m : Exec ε α) = .ok a ↔ o = some a := by
  cases o <;> simp [expect]

/-- A check that fails is an error. -/
theorem noPanic_ensure (c : Prop) [Decidable c] (e : ε) : (ensure c e).NoPanic := by
  unfold ensure
  split
  · exact Exec.noPanic_ok ()
  · exact Exec.noPanic_err e

/-- A value that is missing is an error. -/
theorem noPanic_okOr (o : Option α) (e : ε) : (okOr o e).NoPanic := by
  cases o with
  | none => exact Exec.noPanic_err e
  | some a => exact Exec.noPanic_ok a

end Combinators

/-! ## Origins -/

/-- Who dispatches a call. -/
inductive Origin (AccountId : Type) where
  | root
  | signed (who : AccountId)
  | none
  | relay
  | siblingParachain (id : ParaId)
deriving DecidableEq

/-- `ensure_signed`. -/
def ensureSigned {AccountId : Type} : Origin AccountId → Exec DispatchError AccountId
  | .signed who => .ok who
  | _ => .error (.err .badOrigin)

/-- Only a signed origin has a signer. -/
theorem ensureSigned_eq_ok {AccountId : Type} {origin : Origin AccountId} {who : AccountId} :
    ensureSigned origin = .ok who ↔ origin = .signed who := by
  cases origin <;> simp [ensureSigned]

/-- `ensure_sibling_para`. -/
def ensureSiblingPara {AccountId : Type} : Origin AccountId → Exec DispatchError ParaId
  | .siblingParachain id => .ok id
  | _ => .error (.err .badOrigin)

/-- Only a sibling has a para id. -/
theorem ensureSiblingPara_eq_ok {AccountId : Type} {origin : Origin AccountId} {id : ParaId} :
    ensureSiblingPara origin = .ok id ↔ origin = .siblingParachain id := by
  cases origin <;> simp [ensureSiblingPara]

theorem noPanic_ensureSigned {AccountId : Type} (origin : Origin AccountId) :
    (ensureSigned origin).NoPanic := by
  cases origin <;> first | exact Exec.noPanic_ok _ | exact Exec.noPanic_err _

/-! ## Storage maps -/

/-- A storage map whose entries the runtime enumerates. -/
abbrev StorageMap (K V : Type) := AList fun _ : K => V

/-- `iter_keys`: the keys in the order of their storage hashes. -/
def StorageMap.iterKeys {K V : Type} (storageHash : K → Nat) (m : StorageMap K V) : List K :=
  m.keys.insertionSort fun a b => storageHash a ≤ storageHash b

/-- A key is enumerated if it is there. -/
theorem StorageMap.mem_iterKeys {K V : Type} [DecidableEq K] {storageHash : K → Nat}
    {m : StorageMap K V} {k : K} : k ∈ m.iterKeys storageHash ↔ (m.lookup k).isSome := by
  rw [iterKeys, List.mem_insertionSort, AList.lookup_isSome, AList.mem_keys]

/-- The key enumerated last is the one with the greatest storage hash. -/
theorem StorageMap.getLast?_iterKeys {K V : Type} [DecidableEq K] {storageHash : K → Nat}
    (hinj : Function.Injective storageHash) {m : StorageMap K V} {k : K} :
    (m.iterKeys storageHash).getLast? = some k ↔
      (m.lookup k).isSome ∧ ∀ k', (m.lookup k').isSome → storageHash k' ≤ storageHash k := by
  have htotal : Std.Total fun a b : K => storageHash a ≤ storageHash b :=
    ⟨fun a b => Nat.le_total (storageHash a) (storageHash b)⟩
  have htrans : IsTrans K fun a b => storageHash a ≤ storageHash b :=
    ⟨fun _ _ _ => Nat.le_trans⟩
  have hsorted : (m.iterKeys storageHash).Pairwise fun a b => storageHash a ≤ storageHash b :=
    List.pairwise_insertionSort _ _
  have hmax : ∀ last, (m.iterKeys storageHash).getLast? = some last →
      ∀ k', (m.lookup k').isSome → storageHash k' ≤ storageHash last := by
    intro last hlast k' hk'
    obtain ⟨front, hfront⟩ := List.getLast?_eq_some_iff.mp hlast
    have hmem : k' ∈ m.iterKeys storageHash := mem_iterKeys.mpr hk'
    rw [hfront] at hmem hsorted
    rcases List.mem_append.mp hmem with hmem | hmem
    · exact (List.pairwise_append.mp hsorted).2.2 k' hmem last (List.mem_singleton_self last)
    · rw [List.mem_singleton.mp hmem]
  constructor
  · intro hlast
    exact ⟨mem_iterKeys.mp (List.mem_of_getLast? hlast), hmax k hlast⟩
  · rintro ⟨hk, hle⟩
    cases hlast : (m.iterKeys storageHash).getLast? with
    | none =>
      have hmem : k ∈ m.iterKeys storageHash := mem_iterKeys.mpr hk
      rw [List.getLast?_eq_none_iff.mp hlast] at hmem
      exact absurd hmem List.not_mem_nil
    | some last =>
      -- both bound each other, and the hash tells keys apart
      have hlast' := mem_iterKeys.mp (List.mem_of_getLast? hlast)
      rw [hinj (Nat.le_antisymm (hle last hlast') (hmax last hlast k hk))]

/-- `iter`: the entries in the order of their storage hashes. -/
def StorageMap.iter {K V : Type} (storageHash : K → Nat) (m : StorageMap K V) : List (K × V) :=
  (m.entries.map fun e => (e.1, e.2)).insertionSort fun a b => storageHash a.1 ≤ storageHash b.1

/-- An entry is enumerated if it is there. -/
theorem StorageMap.mem_iter {K V : Type} [DecidableEq K] {storageHash : K → Nat}
    {m : StorageMap K V} {k : K} {v : V} : (k, v) ∈ m.iter storageHash ↔ m.lookup k = some v := by
  rw [iter, List.mem_insertionSort, ← Option.mem_def, AList.mem_lookup_iff, List.mem_map]
  constructor
  · rintro ⟨⟨k', v'⟩, he, heq⟩
    cases heq
    exact he
  · intro he
    exact ⟨⟨k, v⟩, he, rfl⟩

/-- No key is enumerated twice. -/
theorem StorageMap.nodup_iter {K V : Type} {storageHash : K → Nat} (m : StorageMap K V) :
    (m.iter storageHash).Nodup := by
  rw [iter, (List.perm_insertionSort _ _).nodup_iff]
  refine m.nodupKeys.nodup.map ?_
  rintro ⟨k, v⟩ ⟨k', v'⟩ h
  cases h
  rfl

/-- What is enumerated of some keys, and in which order, depends on their entries alone. -/
theorem StorageMap.filter_iter_congr {K V : Type} [DecidableEq K] {storageHash : K → Nat}
    (hinj : Function.Injective storageHash) {m m' : StorageMap K V} {p : K → Bool}
    (h : ∀ k, p k = true → m.lookup k = m'.lookup k) :
    (m.iter storageHash).filter (fun e => p e.1) =
      (m'.iter storageHash).filter (fun e => p e.1) := by
  have htotal : Std.Total fun a b : K × V => storageHash a.1 ≤ storageHash b.1 :=
    ⟨fun a b => Nat.le_total (storageHash a.1) (storageHash b.1)⟩
  have htrans : IsTrans (K × V) fun a b => storageHash a.1 ≤ storageHash b.1 :=
    ⟨fun _ _ _ => Nat.le_trans⟩
  have hperm : ((m.iter storageHash).filter fun e => p e.1).Perm
      ((m'.iter storageHash).filter fun e => p e.1) := by
    refine (List.perm_ext_iff_of_nodup (m.nodup_iter.filter _) (m'.nodup_iter.filter _)).mpr ?_
    intro (k, v)
    rw [List.mem_filter, List.mem_filter, mem_iter, mem_iter]
    exact and_congr_left fun hp => by rw [h k hp]
  refine hperm.eq_of_pairwise ?_ ((List.pairwise_insertionSort _ _).filter _)
    ((List.pairwise_insertionSort _ _).filter _)
  intro (k, v) (k', v') ha hb hab hba
  -- entries at the same place of the order have the same key, hence the same value
  have hk : k = k' := hinj (Nat.le_antisymm hab hba)
  subst hk
  obtain ⟨ha, hp⟩ := List.mem_filter.mp ha
  have hv := mem_iter.mp ha
  rw [h k hp, mem_iter.mp (List.mem_filter.mp hb).1] at hv
  rw [Option.some.inj hv]

end Paraxiom
