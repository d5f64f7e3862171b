import Paraxiom.ForStd.Unwinding
import Paraxiom.Spec.AnchorSteps

/-!
# Names are isolated from each other

Every function of the anchor reads and writes the owner and the store of one name. Two runs
with the same operations on a name, whose replies the response handler answers alike, are
therefore the same to this name, whatever happens to other names in between.

## Key results

- `pushMessage_related`, `rollup_related`: an operation does the same where it reads the same
- `agreeOn_step`: an operation on another name does nothing to this one
- `names_isolated`: the two-run statement
-/

namespace Paraxiom.Anchor

open Scale KvStore Transactional Except

variable {AccountId R R₁ R₂ ε : Type}

/-- Two states of the anchor have the same owner and the same store for a name. -/
structure AgreeOn (name : H256) (s s' : State AccountId) : Prop where
  owner : s.submitterByNames.lookup name = s'.submitterByNames.lookup name
  store : s.states name = s'.states name

/-- Errors of one kind are errors of another. -/
theorem related_mapErr {α β δ : Type} {rel : α → β → Prop} {f : ε → δ} {x : Exec ε α}
    {y : Exec ε β} (h : Related rel x y) : Related rel (Exec.mapErr f x) (Exec.mapErr f y) := by
  cases h with
  | ok h => exact .ok h
  | error e => cases e <;> exact .error _

/-! ## The queue -/

section Queue

variable {cfg : Config} {name : H256} {s s' : State AccountId}

/-- The queue of a name is read from the store of the name. -/
theorem queueGet_congr {ι : Type} [Codec ι] (h : AgreeOn name s s') (index : ι) :
    (queueGet cfg name index s : Exec ε _) = queueGet cfg name index s' := by
  rw [queueGet, queueGet, h.store]

/-- And so are its head, -/
theorem queueHead_congr (h : AgreeOn name s s') :
    (queueHead cfg name s : Exec ε UInt32) = queueHead cfg name s' := by
  rw [queueHead, queueHead, queueGetU32, queueGetU32, queueGet_congr h]

/-- its tail, -/
theorem queueTail_congr (h : AgreeOn name s s') :
    (queueTail cfg name s : Exec ε UInt32) = queueTail cfg name s' := by
  rw [queueTail, queueTail, queueGetU32, queueGetU32, queueGet_congr h]

/-- and its length. -/
theorem queueLen_congr (h : AgreeOn name s s') :
    (queueLen cfg name s : Exec ε UInt32) = queueLen cfg name s' := by
  rw [queueLen, queueLen, queueHead_congr h, queueTail_congr h]

/-- A write to both sides keeps them in agreement. -/
theorem AgreeOn.setState (h : AgreeOn name s s') (key : KeyBytes) (value : Option ValueBytes) :
    AgreeOn name (s.setState name key value) (s'.setState name key value) where
  owner := h.owner
  store := by rw [setState_states_self, setState_states_self, h.store]

/-- And so do any number of writes. -/
theorem AgreeOn.applyUpdates (h : AgreeOn name s s')
    (us : List (KeyBytes × Option ValueBytes)) :
    AgreeOn name (applyUpdates name us s) (applyUpdates name us s') where
  owner := by rw [applyUpdates_submitterByNames, applyUpdates_submitterByNames, h.owner]
  store := by rw [applyUpdates_states_self, applyUpdates_states_self, h.store]

/-- A write to the queue does the same on both sides. -/
theorem queueSet_related {ι : Type} [Codec ι] (h : AgreeOn name s s') (index : ι)
    (data : ValueBytes) :
    Related (AgreeOn name) (queueSet cfg name index data s : Exec ε _)
      (queueSet cfg name index data s') :=
  Related.bind_same fun key => .ok (h.setState key (some data))

/-- And so does a removal. -/
theorem queueRemove_related {ι : Type} [Codec ι] (h : AgreeOn name s s') (index : ι) :
    Related (AgreeOn name) (queueRemove cfg name index s : Exec ε _)
      (queueRemove cfg name index s') :=
  Related.bind_same fun key => .ok (h.setState key none)

/-- The head and the tail are written alike. -/
theorem queueSetU32_related (h : AgreeOn name s s') (index : FixedBytes 5) (value : UInt32) :
    Related (AgreeOn name) (queueSetU32 cfg name index value s : Exec ε _)
      (queueSetU32 cfg name index value s') :=
  Related.bind_same fun bytes => queueSet_related h index bytes

/-- The head moves on both sides, or on neither. -/
theorem queueHeadSet_related (h : AgreeOn name s s') (index : UInt32) :
    Related (AgreeOn name) (queueHeadSet cfg name index s) (queueHeadSet cfg name index s') := by
  unfold queueHeadSet
  rw [queueHead_congr h, queueTail_congr h]
  -- both read the same head and tail, so the range check and the loop are the same
  refine Related.bind_same fun head => Related.bind_same fun tail => Related.bind_same fun _ => ?_
  refine Related.bind (Related.foldlM ?_ h) fun a b hab => queueSetU32_related hab headIndex index
  intro a b i hab
  exact queueRemove_related hab i

/-- A push draws the same id and leaves the same store. -/
theorem pushMessage_related (h : AgreeOn name s s') (data : ValueBytes) :
    Related (SameStep (AgreeOn name)) (pushMessage cfg name data s)
      (pushMessage cfg name data s') := by
  unfold pushMessage
  rw [h.owner, queueLen_congr h, queueTail_congr h]
  -- the guards agree; from here on only writes to the store of the name
  refine Related.bind_same fun _ => Related.bind_same fun len => Related.bind_same fun _ =>
    Related.bind_same fun tail => ?_
  refine (queueSet_related h tail data).bind fun a b hab => ?_
  exact (queueSetU32_related hab tailIndex (tail + 1)).bind fun a' b' hab' => .ok ⟨rfl, hab'⟩

end Queue

/-! ## Calls -/

/-- Whether an operation is on a name. -/
def Op.on (name : H256) : Op AccountId → Bool
  | .claimName _ m => m = name
  | .rollup _ m _ _ => m = name
  | .pushMessage m _ => m = name

instance (store : Store) (c : Cond) : Decidable (c.Holds store) := by
  cases c
  exact inferInstanceAs (Decidable (_ = _))

/-- What the response handler answers to the replies among a list of actions, as far as the
    action loop gets. -/
def replyResults (cfg : Config) (onResponse : OnResponse AccountId R) (name : H256)
    (who : AccountId) : List ActionBytes → State AccountId × R → List (Exec DispatchError Unit)
  | [], _ => []
  | raw :: actions, s =>
    (match decodeAction raw with
      | some (.reply data) => [(onResponse name who data.toList s.2).map fun _ => ()]
      | _ => []) ++
    match execAction cfg onResponse name who s raw with
    | .ok s' => replyResults cfg onResponse name who actions s'
    | .error _ => []

variable [DecidableEq AccountId]

/-- What it answers to the replies of an operation: those of a rollup that gets to its
    actions. -/
def opReplies (cfg : Config) (onResponse : OnResponse AccountId R) (op : Op AccountId)
    (s : State AccountId × R) : List (Exec DispatchError Unit) :=
  match op with
  | .rollup (.signed who) name tx _ =>
    if s.1.submitterByNames.lookup name = some who ∧ ∀ c ∈ tx.conds, c.Holds (s.1.states name) then
      replyResults cfg onResponse name who tx.actions (applyUpdates name tx.updates s.1, s.2)
    else []
  | _ => []

section Calls

variable {cfg : Config} {onResponse₁ : OnResponse AccountId R₁}
  {onResponse₂ : OnResponse AccountId R₂} {name : H256} {who : AccountId}
  {s₁ : State AccountId × R₁} {s₂ : State AccountId × R₂}

/-- Who owns the name is the same on both sides. -/
theorem ensureNameOwner_congr {s s' : State AccountId} (h : AgreeOn name s s') :
    ensureNameOwner name who s = ensureNameOwner name who s' := by
  rw [ensureNameOwner, ensureNameOwner, h.owner]

omit [DecidableEq AccountId] in
/-- Conditions are met on both sides, or on neither. -/
theorem checkConds_congr {s s' : State AccountId} (h : AgreeOn name s s') (conds : List Cond) :
    checkConds name s conds = checkConds name s' conds := by
  induction conds with
  | nil => rfl
  | cons c conds ih =>
    cases c with
    | eq key value => rw [checkConds, checkConds, h.store, ih]

omit [DecidableEq AccountId] in
/-- The action loop does the same if its replies are answered alike. -/
theorem actions_related {actions : List ActionBytes} (h : AgreeOn name s₁.1 s₂.1)
    (hreplies : replyResults cfg onResponse₁ name who actions s₁ =
      replyResults cfg onResponse₂ name who actions s₂) :
    Related (fun p q => AgreeOn name p.1 q.1)
      (actions.foldlM (execAction cfg onResponse₁ name who) s₁)
      (actions.foldlM (execAction cfg onResponse₂ name who) s₂) := by
  induction actions generalizing s₁ s₂ with
  | nil => exact .ok h
  | cons raw actions ih =>
    rw [List.foldlM_cons, List.foldlM_cons]
    unfold replyResults at hreplies
    cases hact : decodeAction raw with
    | none =>
      -- neither run gets past an entry that is no action
      rw [execAction_of_none hact, execAction_of_none hact]
      exact .error _
    | some act =>
      cases act with
      | setQueueHead index =>
        -- a head move depends on the store alone
        rw [execAction_of_setQueueHead hact, execAction_of_setQueueHead hact, hact] at hreplies
        rw [execAction_of_setQueueHead hact, execAction_of_setQueueHead hact]
        have hset : Related (AgreeOn name) (queueHeadSet cfg name index s₁.1)
            (queueHeadSet cfg name index s₂.1) := queueHeadSet_related h index
        obtain ⟨a, b, ha, hb, hab⟩ | ⟨e, ha, hb⟩ := hset.eq_ok_or_eq_error
        · rw [ha, hb] at hreplies
          rw [ha, hb]
          exact ih hab hreplies
        · rw [ha, hb]
          exact .error e
      | reply data =>
        rw [execAction_of_reply hact, execAction_of_reply hact, hact] at hreplies
        rw [execAction_of_reply hact, execAction_of_reply hact]
        obtain ⟨hhead, htail⟩ := List.cons.inj hreplies
        -- the handlers answer alike, and what they leave is the handlers' own
        cases h₁ : onResponse₁ name who data.toList s₁.2 <;>
          cases h₂ : onResponse₂ name who data.toList s₂.2 <;> rw [h₁, h₂] at hhead
        · cases hhead
          exact .error _
        · cases hhead
        · cases hhead
        · rw [h₁, h₂] at htail
          exact ih h htail

omit [DecidableEq AccountId] in
/-- A claim of the name succeeds on both sides, or on neither. -/
theorem claimName_related {s s' : State AccountId} (h : AgreeOn name s s')
    (origin : Origin AccountId) :
    Related (AgreeOn name) (claimName origin name s) (claimName origin name s') := by
  unfold claimName
  rw [h.owner]
  refine Related.bind_same fun who => Related.bind_same fun _ => .ok ⟨?_, h.store⟩
  rw [AList.lookup_insert, AList.lookup_insert]

/-- A rollup does the same if its replies are answered alike. -/
theorem rollup_related (h : AgreeOn name s₁.1 s₂.1) (origin : Origin AccountId) (tx : RollupTx)
    (nonce : U128)
    (hreplies : opReplies cfg onResponse₁ (.rollup origin name tx nonce) s₁ =
      opReplies cfg onResponse₂ (.rollup origin name tx nonce) s₂) :
    Related (fun p q => AgreeOn name p.1 q.1) (rollup cfg onResponse₁ origin name tx nonce s₁)
      (rollup cfg onResponse₂ origin name tx nonce s₂) := by
  unfold rollup
  refine Related.bind_of_ok fun who hwho => ?_
  obtain rfl := ensureSigned_eq_ok.mp hwho
  rw [ensureNameOwner_congr h, checkConds_congr h]
  refine Related.bind_of_ok fun _ howner => Related.bind_of_ok fun _ hconds => ?_
  have howner := ensureNameOwner_eq_ok.mp howner
  have hconds := checkConds_eq_ok.mp hconds
  -- both runs get to the actions
  simp only [opReplies, h.owner, h.store, if_pos (And.intro howner hconds)] at hreplies
  refine (actions_related (h.applyUpdates tx.updates) hreplies).bind fun p q hpq => ?_
  exact .ok ⟨hpq.owner, hpq.store⟩

/-- An operation on a name does the same where the name is the same. -/
theorem apply_related {op : Op AccountId} (hop : op.on name = true) (h : AgreeOn name s₁.1 s₂.1)
    (hreplies : opReplies cfg onResponse₁ op s₁ = opReplies cfg onResponse₂ op s₂) :
    Related (SameStep fun p q => AgreeOn name p.1 q.1) (apply cfg onResponse₁ op s₁)
      (apply cfg onResponse₂ op s₂) := by
  cases op with
  | claimName origin m =>
    obtain rfl : m = name := of_decide_eq_true hop
    exact (claimName_related h origin).bind fun a b hab => .ok ⟨rfl, hab⟩
  | rollup origin m tx nonce =>
    obtain rfl : m = name := of_decide_eq_true hop
    exact (rollup_related h origin tx nonce hreplies).bind fun p q hpq => .ok ⟨rfl, hpq⟩
  | pushMessage m data =>
    obtain rfl : m = name := of_decide_eq_true hop
    refine (related_mapErr (pushMessage_related h data)).bind fun p q hpq => ?_
    exact .ok ⟨congrArg Answer.pushed hpq.1, hpq.2⟩

/-- An operation on another name does nothing to this one. -/
theorem agreeOn_step {onResponse : OnResponse AccountId R} {op : Op AccountId}
    (hop : op.on name = false) (s : State AccountId × R) :
    AgreeOn name (step (apply cfg onResponse) s op).1 s.1 := by
  cases hres : apply cfg onResponse op s with
  | error e => rw [step_of_error hres]; exact ⟨rfl, rfl⟩
  | ok p =>
    obtain ⟨a, s'⟩ := p
    rw [step_of_ok hres]
    -- each operation writes the owner or the store of its own name only
    cases op with
    | claimName origin m =>
      have hne : name ≠ m := fun heq => of_decide_eq_false hop heq.symm
      obtain ⟨_, hclaim, _⟩ := apply_claimName_eq_ok.mp hres
      obtain ⟨who, _, _, hs'⟩ := claimName_eq_ok.mp hclaim
      exact ⟨by rw [hs', AList.lookup_insert_ne hne], by rw [hs']⟩
    | rollup origin m tx nonce =>
      have hne : name ≠ m := fun heq => of_decide_eq_false hop heq.symm
      obtain ⟨_, hroll⟩ := apply_rollup_eq_ok.mp hres
      obtain ⟨_, hother, hnames⟩ := rollup_effect hroll
      exact ⟨by rw [hnames], hother name hne⟩
    | pushMessage m data =>
      have hne : name ≠ m := fun heq => of_decide_eq_false hop heq.symm
      obtain ⟨id, _, hpush, _⟩ := apply_pushMessage_eq_ok.mp hres
      obtain ⟨_, _, _, _, _, hs'⟩ := pushMessage_eq_ok hpush
      exact ⟨by rw [hs', applyUpdates_submitterByNames],
        by rw [hs', applyUpdates_states_of_ne _ _ _ hne]⟩

end Calls

/-! ## What happens to a name -/

section Steps

variable {cfg : Config} {onResponse : OnResponse AccountId R}

variable (cfg onResponse) in
/-- What an operation can do to a name: nothing, claim it, roll up as its owner, or push a
    message to it. -/
theorem name_step (name : H256) (op : Op AccountId) (s : State AccountId × R) :
    AgreeOn name (step (apply cfg onResponse) s op).1 s.1 ∨
    (s.1.submitterByNames.lookup name = none ∧
      (∃ who, (step (apply cfg onResponse) s op).1.submitterByNames.lookup name = some who) ∧
      (step (apply cfg onResponse) s op).1.states name = s.1.states name) ∨
    (step (apply cfg onResponse) s op).1.submitterByNames = s.1.submitterByNames ∧
      ((∃ who tx nonce, op = .rollup (.signed who) name tx nonce ∧
          s.1.submitterByNames.lookup name = some who ∧
          (event (apply cfg onResponse) s op).result = .ok .done) ∨
        ∃ data id, op = .pushMessage name data ∧ (s.1.submitterByNames.lookup name).isSome ∧
          (event (apply cfg onResponse) s op).result = .ok (.pushed id) ∧
          ∀ key, key ≠ slot cfg tailIndex → key ≠ slot cfg id →
            (step (apply cfg onResponse) s op).1.states name key = s.1.states name key) := by
  cases hop : op.on name with
  | false => exact .inl (agreeOn_step hop s)
  | true =>
    cases hres : apply cfg onResponse op s with
    | error e => rw [step_of_error hres]; exact .inl ⟨rfl, rfl⟩
    | ok p =>
      obtain ⟨a, s'⟩ := p
      have hresult : (event (apply cfg onResponse) s op).result = .ok a :=
        event_result_eq_ok.mpr (by rw [hres, step_of_ok hres])
      rw [hresult, step_of_ok hres]
      cases op with
      | claimName origin m =>
        obtain rfl : m = name := of_decide_eq_true hop
        obtain ⟨_, hclaim, _⟩ := apply_claimName_eq_ok.mp hres
        obtain ⟨who, _, hnone, hs'⟩ := claimName_eq_ok.mp hclaim
        exact .inr (.inl ⟨hnone, ⟨who, by rw [hs', AList.lookup_insert]⟩, by rw [hs']⟩)
      | rollup origin m tx nonce =>
        obtain rfl : m = name := of_decide_eq_true hop
        obtain ⟨rfl, hroll⟩ := apply_rollup_eq_ok.mp hres
        obtain ⟨who, rfl, howner, _⟩ := rollup_eq_ok.mp hroll
        exact .inr (.inr ⟨(rollup_effect hroll).2.2, .inl ⟨who, tx, nonce, rfl, howner, rfl⟩⟩)
      | pushMessage m data =>
        obtain rfl : m = name := of_decide_eq_true hop
        obtain ⟨id, rfl, hpush, _⟩ := apply_pushMessage_eq_ok.mp hres
        obtain ⟨hclaimed, _, _, _, _, hs'⟩ := pushMessage_eq_ok hpush
        refine .inr (.inr ⟨by rw [hs', applyUpdates_submitterByNames],
          .inr ⟨data, id, rfl, hclaimed, rfl, fun key htail hid => ?_⟩⟩)
        -- the two entries that the push writes are excluded
        rw [hs', applyUpdates_states_self, writeAll_of_forall_ne]
        simp [pushMoves, Ne.symm htail, Ne.symm hid]

/-- The owner of a name stays its owner. -/
theorem owner_step {name : H256} {who : AccountId} {s : State AccountId × R}
    (h : s.1.submitterByNames.lookup name = some who) (op : Op AccountId) :
    (step (apply cfg onResponse) s op).1.submitterByNames.lookup name = some who := by
  rcases name_step cfg onResponse name op s with
    hsame | ⟨hnone, _⟩ | ⟨hnames, _⟩
  · rw [hsame.owner, h]
  · rw [h] at hnone
    cases hnone
  · rw [hnames, h]

/-- A name that nobody has claimed has an empty store. -/
def EmptyUnclaimed (name : H256) (s : State AccountId) : Prop :=
  s.submitterByNames.lookup name = none → s.states name = fun _ => none

/-- A name without an owner keeps an empty store: pushes and rollups ask for an owner. -/
theorem emptyUnclaimed_step {name : H256} {s : State AccountId × R} (h : EmptyUnclaimed name s.1)
    (op : Op AccountId) : EmptyUnclaimed name (step (apply cfg onResponse) s op).1 := by
  intro hnone
  rcases name_step cfg onResponse name op s with
    hsame | ⟨_, ⟨who, hwho⟩, _⟩ | ⟨hnames, hcases⟩
  · rw [hsame.store]
    exact h (by rw [← hsame.owner]; exact hnone)
  · rw [hwho] at hnone
    cases hnone
  · -- only a claimed name takes rollups and messages
    rw [hnames] at hnone
    rcases hcases with ⟨who, _, _, _, howner, _⟩ | ⟨_, _, _, hclaimed, _⟩
    · rw [howner] at hnone
      cases hnone
    · rw [hnone] at hclaimed
      cases hclaimed

end Steps

/-- In two runs with the same operations on a name, whose replies are answered alike, these
    operations have the same outcomes, and the name ends up with the same owner and the same
    store. In every run, the owner of the name never changes, its store is empty until it is
    claimed, and changes only in an accepted rollup signed by the owner or in a push of a
    message, which touches the tail and the entry of the message. -/
theorem names_isolated (cfg : Config) (onResponse₁ : OnResponse AccountId R₁)
    (onResponse₂ : OnResponse AccountId R₂) (r₁ : R₁) (r₂ : R₂) (name : H256)
    (ops₁ ops₂ : List (Op AccountId))
    (hops : ops₁.filter (·.on name) = ops₂.filter (·.on name))
    (hreplies : (seenEvents (·.on name) (history (apply cfg onResponse₁) (genesis, r₁) ops₁)).map
        (fun e => opReplies cfg onResponse₁ e.op e.pre) =
      (seenEvents (·.on name) (history (apply cfg onResponse₂) (genesis, r₂) ops₂)).map
        (fun e => opReplies cfg onResponse₂ e.op e.pre)) :
    ((seenEvents (·.on name) (history (apply cfg onResponse₁) (genesis, r₁) ops₁)).map
        Event.result =
      (seenEvents (·.on name) (history (apply cfg onResponse₂) (genesis, r₂) ops₂)).map
        Event.result ∧
    AgreeOn name (run (apply cfg onResponse₁) (genesis, r₁) ops₁).1
      (run (apply cfg onResponse₂) (genesis, r₂) ops₂).1) ∧
    ∀ e ∈ history (apply cfg onResponse₁) (genesis, r₁) ops₁,
      (∀ who, e.pre.1.submitterByNames.lookup name = some who →
        e.post.1.submitterByNames.lookup name = some who) ∧
      (e.pre.1.submitterByNames.lookup name = none → ∀ key, e.pre.1.states name key = none) ∧
      (e.post.1.submitterByNames.lookup name = none → ∀ key, e.post.1.states name key = none) ∧
      (e.post.1.states name ≠ e.pre.1.states name →
        (∃ who tx nonce, e.op = .rollup (.signed who) name tx nonce ∧
          e.pre.1.submitterByNames.lookup name = some who ∧ e.result = .ok .done) ∨
        ∃ data id, e.op = .pushMessage name data ∧ e.result = .ok (.pushed id) ∧
          ∀ key, key ≠ slot cfg tailIndex → key ≠ slot cfg id →
            e.post.1.states name key = e.pre.1.states name key) := by
  constructor
  · -- two runs: the operations on other names are hidden, those on the name are paired
    refine unwinding (fun p q => AgreeOn name p.1 q.1) (fun _ => True) (fun _ => True)
      (fun e₁ e₂ => opReplies cfg onResponse₁ e₁.op e₁.pre =
        opReplies cfg onResponse₂ e₂.op e₂.pre) ?_ ?_ ?_ ⟨rfl, rfl⟩ hops (fun _ _ _ => trivial)
      (fun _ _ _ => trivial) (forall_mem_zip_of_map_eq hreplies)
    · -- a hidden operation of the first run, then one of the second
      intro s₁ s₂ op hop _ hagree
      have hstep : AgreeOn name (step (apply cfg onResponse₁) s₁ op).1 s₁.1 := agreeOn_step hop s₁
      exact ⟨hstep.owner.trans hagree.owner, hstep.store.trans hagree.store⟩
    · intro s₁ s₂ op hop _ hagree
      have hstep : AgreeOn name (step (apply cfg onResponse₂) s₂ op).1 s₂.1 := agreeOn_step hop s₂
      exact ⟨hagree.owner.trans hstep.owner.symm, hagree.store.trans hstep.store.symm⟩
    · intro s₁ s₂ op hop hpaired hagree
      exact apply_related hop hagree hpaired
  · -- one run: an invariant of the states and a case analysis of the event
    intro e he
    obtain ⟨hpre, hpost⟩ := forall_later
      (I := fun s => EmptyUnclaimed name s.1) (fun s op h => emptyUnclaimed_step h op)
      (fun _ => rfl) ops₁ e he
    obtain ⟨before, op, after, rfl, rfl⟩ := mem_history he
    refine ⟨fun who h => owner_step h op, fun h key => by rw [hpre h], fun h key => by rw [hpost h],
      fun hchange => ?_⟩
    rcases name_step cfg onResponse₁ name op
        (run (apply cfg onResponse₁) (genesis, r₁) before) with hsame | ⟨_, _, hsame⟩ | ⟨_, hcases⟩
    · exact absurd hsame.store hchange
    · exact absurd hsame hchange
    · refine hcases.imp_right ?_
      rintro ⟨data, id, hop, _, hresult, hframe⟩
      exact ⟨data, id, hop, hresult, hframe⟩

/-! ## Two runs -/

/-- Another name than `sampleName`. -/
def strangerName : H256 := ⟨List.replicate 32 3, rfl⟩

/-- A name is claimed, gets a message, and its owner moves the head past it. -/
def quietOps : List (Op Nat) :=
  [.claimName (.signed 1) sampleName, .pushMessage sampleName (BoundedVec.truncateFrom 2048 [7]),
   .rollup (.signed 1) sampleName
     ⟨[], [BoundedVec.truncateFrom 256 (encode (Action.setQueueHead 1))], []⟩ 0]

/-- The same, with a stranger's name filling up in between. -/
def busyOps : List (Op Nat) :=
  [.claimName (.signed 2) strangerName, .claimName (.signed 1) sampleName,
   .pushMessage strangerName (BoundedVec.truncateFrom 2048 [9]),
   .pushMessage sampleName (BoundedVec.truncateFrom 2048 [7]),
   .rollup (.signed 1) strangerName ⟨[], [], []⟩ 0,
   .rollup (.signed 1) sampleName
     ⟨[], [BoundedVec.truncateFrom 256 (encode (Action.setQueueHead 1))], []⟩ 0]

/-- The busy run does what the quiet one does, with strangers around. -/
theorem names_isolated_sample :
    AgreeOn sampleName
      (run (apply sampleConfig (OnResponse.unit : OnResponse Nat Unit)) (genesis, ()) quietOps).1
      (run (apply sampleConfig OnResponse.unit) (genesis, ()) busyOps).1 :=
  (names_isolated sampleConfig OnResponse.unit OnResponse.unit () () sampleName quietOps busyOps
    rfl (by decide)).1.2

end Paraxiom.Anchor
