import Paraxiom.Phat.RollupSetup
import Paraxiom.Spec.NameIsolation

/-!
# The set-up of the rollup is settled once

`maybe_init_rollup` may be called by anybody, any number of times and under changing
configurations; what it reads of a chain may be old, and the claims it sends arrive in any
order, late, twice or never, among the claims of strangers. All the same, on each chain the
first claim of the name that arrives decides what every call answers from then on. Each call
may meet a client of its own; of all of them only `Client.Documented` is assumed.

## Key results

- `setup_answers_agree`: no two answers of a run disagree about the owner of the name
- `setup_by_own_claim`: a set-up that is done was done by a claim that the contract sent under a
  configuration that its owner had made, or by one that somebody else signed with the same key
-/

namespace Paraxiom.PhatOracleFeed

open Scale Transactional

variable {ChainId R : Type} {env : Setting ChainId R} {name : H256}

/-! ## The owner on a chain -/

/-- A name that has an owner had the same before, or has just been claimed by it. -/
theorem nameOwner_concat {ops : List (Anchor.Op AccountId)} {op : Anchor.Op AccountId}
    {a : AccountId} (h : env.nameOwner name (ops ++ [op]) = some a) :
    env.nameOwner name ops = some a ∨
      env.nameOwner name ops = none ∧ op = .claimName (.signed a) name := by
  unfold Setting.nameOwner at h ⊢
  rw [run_concat] at h
  generalize run (Anchor.apply env.anchor env.onResponse) _ ops = s at h ⊢
  cases hok : Anchor.apply env.anchor env.onResponse op s with
  | error f =>
    rw [step_of_error hok] at h
    exact .inl h
  | ok p =>
    obtain ⟨answer, s'⟩ := p
    rw [step_of_ok hok] at h
    cases op with
    | claimName origin m =>
      obtain ⟨_, hclaim, _⟩ := Anchor.apply_claimName_eq_ok.mp hok
      obtain ⟨who, rfl, hnone, heq⟩ := Anchor.claimName_eq_ok.mp hclaim
      rw [heq] at h
      by_cases hm : name = m
      · -- a name can only be claimed while nobody has it
        subst hm
        rw [AList.lookup_insert] at h
        obtain rfl := Option.some.inj h
        exact .inr ⟨hnone, rfl⟩
      · rw [AList.lookup_insert_ne hm] at h
        exact .inl h
    | rollup origin m tx nonce =>
      obtain ⟨_, hroll⟩ := Anchor.apply_rollup_eq_ok.mp hok
      rw [(Anchor.rollup_effect hroll).2.2] at h
      exact .inl h
    | pushMessage m data =>
      obtain ⟨_, _, hpush, _⟩ := Anchor.apply_pushMessage_eq_ok.mp hok
      obtain ⟨_, _, _, _, _, heq⟩ := Anchor.pushMessage_eq_ok hpush
      rw [heq, Anchor.applyUpdates_submitterByNames] at h
      exact .inl h

/-- The owner at some height of a chain is the owner ever after. -/
theorem nameOwner_of_isPrefix {ops ops' : List (Anchor.Op AccountId)} {a : AccountId}
    (hlater : ops <+: ops') (h : env.nameOwner name ops = some a) :
    env.nameOwner name ops' = some a := by
  obtain ⟨later, rfl⟩ := hlater
  unfold Setting.nameOwner at h ⊢
  rw [run_append]
  exact run_invariant
    (I := fun s : Anchor.State AccountId × R => s.1.submitterByNames.lookup name = some a)
    (fun s op hs => Anchor.owner_step hs op) h later

/-! ## Calls -/

/-- The claim that a configured contract sends. -/
def Config.claim (config : Config) (contractId : H256) : Claim :=
  ⟨config.rpc, config.palletId, contractId, config.submitKey⟩

/-- What a call does under a configuration: it sends one claim at most, and it answers who has
    set the rollup up only if it has read the owner of the name on the chain. -/
theorem maybeInitRollup_of_config {client : Client (World ChainId)}
    (hclient : client.Documented env) {contract : Contract} {config : Config}
    (hconfig : contract.config = some config) (w : World ChainId) :
    let r := maybeInitRollup client env.contractId contract w
    (r.2 = w ∨ r.2 = { w with sent := w.sent ++ [config.claim env.contractId] }) ∧
      (r.1 = .ok none → ∃ n, env.nameOwner env.contractId
        ((w.chains (env.chainOf config.rpc)).take n) = some (env.publicKey config.submitKey)) ∧
      (r.1 = .error (.err .rollupConfiguredByAnotherAccount) →
        ∃ n a, a ≠ env.publicKey config.submitKey ∧ env.nameOwner env.contractId
          ((w.chains (env.chainOf config.rpc)).take n) = some a) := by
  intro r
  cases hread : client.getNameOwner config.rpc env.contractId w with
  | none =>
    have hr : r = (.error (.err .failedToGetNameOwner), w) := by
      simp only [r, maybeInitRollup, hconfig, hread]
    rw [hr]
    exact ⟨.inl rfl, nofun, nofun⟩
  | some actualOwner =>
    obtain ⟨n, hheight⟩ := hclient.getNameOwner_eq_some _ _ _ _ hread
    cases actualOwner with
    | none =>
      have hr : r = ((okOr (client.claimName config.rpc config.palletId env.contractId
          config.submitKey w).1 .failedToClaimName).map some, (client.claimName config.rpc
            config.palletId env.contractId config.submitKey w).2) := by
        simp only [r, maybeInitRollup, hconfig, hread]
      have hsent := hclient.claimName_snd config.rpc config.palletId env.contractId
        config.submitKey w
      rw [hr]
      -- whatever the client reports, the answer is not about an owner
      generalize client.claimName _ _ _ _ w = claimed at hsent ⊢
      obtain ⟨txHash, w'⟩ := claimed
      cases txHash <;> exact ⟨hsent, nofun, nofun⟩
    | some owner =>
      have hencode : Function.Injective (encode : AccountId → Bytes) := encode_injective
      have hr : r = if owner = env.publicKey config.submitKey then (.ok none, w)
          else (.error (.err .rollupConfiguredByAnotherAccount), w) := by
        simp only [r, maybeInitRollup, hconfig, hread, hclient.getPublicKey_eq, hencode.eq_iff]
      rw [hr]
      split
      · rename_i heq
        exact ⟨.inl rfl, fun _ => ⟨n, heq ▸ hheight.symm⟩, nofun⟩
      · rename_i hne
        exact ⟨.inl rfl, nofun, fun _ => ⟨n, owner, hne, hheight.symm⟩⟩

/-- A message that fails leaves the contract as it was. -/
theorem update_cases (w : World ChainId) (result : Exec Error Contract) :
    (w.update result).2 = w ∨
      ∃ contract, result = .ok contract ∧ (w.update result).2 = { w with contract } := by
  cases result with
  | ok contract => exact .inr ⟨contract, rfl, rfl⟩
  | error f => exact .inl rfl

/-- What a call sends. -/
theorem maybeInitRollup_cases {client : Client (World ChainId)} (hclient : client.Documented env)
    (w : World ChainId) :
    let w' := (maybeInitRollup client env.contractId w.contract w).2
    w' = w ∨ ∃ config, w.contract.config = some config ∧
      w' = { w with sent := w.sent ++ [config.claim env.contractId] } := by
  cases hconfig : w.contract.config with
  | none =>
    unfold maybeInitRollup
    rw [hconfig]
    exact .inl rfl
  | some config =>
    exact (maybeInitRollup_of_config hclient hconfig w).1.imp_right fun h => ⟨config, rfl, h⟩

/-! ## Steps -/

section Steps

variable [DecidableEq ChainId] {op : Op ChainId} {w : World ChainId}

/-- The operation makes the chain execute `anchorOp`: somebody else does, or a claim arrives. -/
def Executes (env : Setting ChainId R) (w : World ChainId) (op : Op ChainId) (chain : ChainId)
    (anchorOp : Anchor.Op AccountId) : Prop :=
  op = .elsewhere chain anchorOp ∨ ∃ index claim, op = .deliver index ∧
    w.sent[index]? = some claim ∧ env.chainOf claim.rpc = chain ∧
    claim.palletId = env.anchorIndex chain ∧
    anchorOp = .claimName (.signed (env.publicKey claim.submitKey)) claim.name

/-- An operation on a chain is appended to what it has executed. -/
theorem execute_chains (w : World ChainId) (chain chain' : ChainId)
    (anchorOp : Anchor.Op AccountId) :
    (w.execute chain' anchorOp).chains chain = w.chains chain ∨
      chain' = chain ∧ (w.execute chain' anchorOp).chains chain = w.chains chain ++ [anchorOp] := by
  by_cases h : chain = chain'
  · subst h
    exact .inr ⟨rfl, Function.update_self ..⟩
  · exact .inl (Function.update_of_ne h ..)

/-- What an operation does to a chain. -/
theorem dispatch_chains (hop : op.Documented env) (w : World ChainId) (chain : ChainId) :
    (env.dispatch op w).2.chains chain = w.chains chain ∨
      ∃ anchorOp, Executes env w op chain anchorOp ∧
        (env.dispatch op w).2.chains chain = w.chains chain ++ [anchorOp] := by
  cases op with
  | config caller rpc palletId submitKey =>
    rcases update_cases w (config caller rpc palletId submitKey w.contract) with h | ⟨_, _, h⟩ <;>
      exact .inl (by rw [Setting.dispatch, h])
  | transferOwnership caller newOwner =>
    rcases update_cases w (transferOwnership caller newOwner w.contract) with h | ⟨_, _, h⟩ <;>
      exact .inl (by rw [Setting.dispatch, h])
  | maybeInitRollup client =>
    rcases maybeInitRollup_cases (hop client rfl) w with h | ⟨_, _, h⟩ <;>
      exact .inl (by rw [Setting.dispatch, h])
  | deliver index =>
    have hworld : (env.dispatch (.deliver index) w).2 =
        (w.sent[index]?).elim w (env.deliver · w) := rfl
    rw [hworld]
    cases hclaim : w.sent[index]? with
    | none => exact .inl rfl
    | some claim =>
      dsimp only [Option.elim_some, Setting.deliver]
      -- a claim for another pallet index does not reach the anchor
      split
      · rename_i hindex
        rcases execute_chains w chain (env.chainOf claim.rpc)
          (.claimName (.signed (env.publicKey claim.submitKey)) claim.name) with h | ⟨hchain, h⟩
        · exact .inl h
        · exact .inr ⟨_, .inr ⟨index, claim, rfl, hclaim, hchain, hchain ▸ hindex, rfl⟩, h⟩
      · exact .inl rfl
  | elsewhere chain' anchorOp =>
    rcases execute_chains w chain chain' anchorOp with h | ⟨rfl, h⟩
    · exact .inl h
    · exact .inr ⟨anchorOp, .inl rfl, h⟩

/-- What a chain has executed stays executed. -/
theorem chains_prefix_step (hop : op.Documented env) (w : World ChainId) (chain : ChainId) :
    w.chains chain <+: (step env.apply w op).chains chain := by
  have hstep : step env.apply w op = (env.dispatch op w).2 := rfl
  rw [hstep]
  rcases dispatch_chains hop w chain with h | ⟨_, _, h⟩
  · rw [h]
  · rw [h]
    exact List.prefix_append ..

end Steps

/-! ## The answers of a run -/

/-- All answers of a run about who has set the rollup up on a chain are right of the owner that
    the name has there at the end: it is done if the configured key is the owner's, and it is
    another's if not, whatever clients the calls met, however old the states were that these
    read and whatever was configured when they did. -/
theorem setup_answers_agree [DecidableEq ChainId] (env : Setting ChainId R) (deployer : AccountId)
    (ops : List (Op ChainId)) (hclients : ∀ op ∈ ops, op.Documented env) :
    ∀ e ∈ history env.apply (.deployed deployer) ops, ∀ client config,
      e.op = .maybeInitRollup client → e.pre.contract.config = some config →
      let owner := env.nameOwner env.contractId
        ((run env.apply (.deployed deployer) ops).chains (env.chainOf config.rpc))
      (e.result = .ok (.ok none) → owner = some (env.publicKey config.submitKey)) ∧
        (e.result = .ok (.error (.err .rollupConfiguredByAnotherAccount)) →
          ∃ a, a ≠ env.publicKey config.submitKey ∧ owner = some a) := by
  intro e he client config hop hconfig owner
  obtain ⟨before, op, after, rfl, rfl⟩ := mem_history he
  obtain rfl : op = .maybeInitRollup client := hop
  have hconfig : (run env.apply (.deployed deployer) before).contract.config = some config :=
    hconfig
  have hclient : client.Documented env :=
    hclients _ (List.mem_append_right _ List.mem_cons_self) client rfl
  obtain ⟨_, hdone, hanother⟩ := maybeInitRollup_of_config hclient hconfig
    (run env.apply (.deployed deployer) before)
  -- what was read is the owner of a prefix of what the chain has executed in the end
  have hgrown : (run env.apply (.deployed deployer) before).chains (env.chainOf config.rpc) <+:
      (run env.apply (.deployed deployer)
        (before ++ .maybeInitRollup client :: after)).chains (env.chainOf config.rpc) := by
    rw [run_append]
    exact run_invariant_of_mem
      (I := fun w' : World ChainId => _ <+: w'.chains (env.chainOf config.rpc))
      (fun w' op hop h => h.trans (chains_prefix_step
        (hclients op (List.mem_append_right _ hop)) w' _)) (List.prefix_refl _)
  have howner : ∀ n a, env.nameOwner env.contractId
      (((run env.apply (.deployed deployer) before).chains (env.chainOf config.rpc)).take n) =
        some a → owner = some a := fun n a h =>
    nameOwner_of_isPrefix ((List.take_prefix n _).trans hgrown) h
  refine ⟨fun h => ?_, fun h => ?_⟩
  · obtain ⟨n, hread⟩ := hdone (Except.ok.inj h)
    exact howner n _ hread
  · obtain ⟨n, a, hne, hread⟩ := hanother (Except.ok.inj h)
    exact ⟨a, hne, howner n a hread⟩

/-- A client whose endpoints answer from the state after `height` operations, or not at all, and
    that reports `txHash` for a claim. -/
def Setting.client (env : Setting ChainId R) (height : Option Nat) (txHash : Option Bytes) :
    Client (World ChainId) where
  getNameOwner rpc name w :=
    height.map fun n => env.nameOwner name ((w.chains (env.chainOf rpc)).take n)
  claimName rpc palletId name submitKey w :=
    (txHash, { w with sent := w.sent ++ [⟨rpc, palletId, name, submitKey⟩] })
  getPublicKey submitKey := encode (env.publicKey submitKey)

/-- The reference client does what is documented. -/
theorem Setting.client_documented (env : Setting ChainId R) (height : Option Nat)
    (txHash : Option Bytes) : (env.client height txHash).Documented env where
  getNameOwner_eq_some rpc name w owner h := by
    obtain ⟨n, _, howner⟩ := Option.map_eq_some_iff.mp h
    exact ⟨n, howner.symm⟩
  claimName_snd _ _ _ _ _ := .inr rfl
  getPublicKey_eq _ := rfl

/-- One chain, whose keys are the accounts themselves. -/
def sampleSetting : Setting Unit Unit where
  contractId := Anchor.sampleName
  chainOf _ := ()
  anchorIndex _ := 100
  publicKey key := key
  anchor := Anchor.sampleConfig
  onResponse := .unit
  responses := ()

/-- The key, and the account, of a single byte. -/
def sampleKeyOf (byte : UInt8) : FixedBytes 32 := ⟨List.replicate 32 byte, List.length_replicate⟩

/-- The owner sends a claim with one key, configures another, sends a claim with that one, which
    is the first to arrive, and goes back to the first key. -/
def setupOps : List (Op Unit) :=
  [.config (sampleKeyOf 9) "rpc" 100 (sampleKeyOf 1).toList,
    .maybeInitRollup (sampleSetting.client (some 0) (some [])),
    .config (sampleKeyOf 9) "rpc" 100 (sampleKeyOf 2).toList,
    .maybeInitRollup (sampleSetting.client (some 0) none), .deliver 1, .deliver 0,
    .maybeInitRollup (sampleSetting.client (some 1) none),
    .config (sampleKeyOf 9) "rpc" 100 (sampleKeyOf 1).toList,
    .maybeInitRollup (sampleSetting.client (some 2) none)]

/-- Every client of the run is one of these. -/
theorem setupOps_documented : ∀ op ∈ setupOps, op.Documented sampleSetting := by
  simp [setupOps, Op.Documented, Setting.client_documented]

/-- The seventh call answers that the set-up is done, the last that it is another's. -/
theorem setup_answers_agree_sample :
    sampleSetting.nameOwner Anchor.sampleName
      ((run sampleSetting.apply (.deployed (sampleKeyOf 9)) setupOps).chains ()) =
        some (sampleKeyOf 2) ∧
      ∃ a, a ≠ sampleKeyOf 1 ∧ sampleSetting.nameOwner Anchor.sampleName
        ((run sampleSetting.apply (.deployed (sampleKeyOf 9)) setupOps).chains ()) = some a := by
  have hall := setup_answers_agree sampleSetting (sampleKeyOf 9) setupOps setupOps_documented
  have hdone := hall (event sampleSetting.apply
    (run sampleSetting.apply (.deployed (sampleKeyOf 9)) (setupOps.take 6))
    (.maybeInitRollup (sampleSetting.client (some 1) none))) (by simp [setupOps]) _ _ rfl rfl
  have hanother := hall (event sampleSetting.apply
    (run sampleSetting.apply (.deployed (sampleKeyOf 9)) (setupOps.take 8))
    (.maybeInitRollup (sampleSetting.client (some 2) none))) (by simp [setupOps]) _ _ rfl rfl
  exact ⟨hdone.1 rfl, hanother.2 rfl⟩

/-! ## Where a set-up comes from -/

/-- An operation of a run, and what it did. -/
abbrev WorldEvent (ChainId : Type) : Type :=
  Event (World ChainId) (Op ChainId) Empty (Exec Error (Option Bytes))

/-- The owner of the contract, as it was then, made the configuration. -/
def ConfiguredIn (past : List (WorldEvent ChainId)) (config : Config) : Prop :=
  ∃ e ∈ past, e.op = .config e.pre.contract.owner config.rpc config.palletId
    config.submitKey.toList ∧ e.post.contract.config = some config

/-- A call sent the claim, under a configuration that the owner had made. -/
def SentIn (env : Setting ChainId R) (past : List (WorldEvent ChainId)) (claim : Claim) : Prop :=
  ∃ before e after, past = before ++ e :: after ∧ ∃ client config,
    e.op = .maybeInitRollup client ∧ e.pre.contract.config = some config ∧
      claim = config.claim env.contractId ∧ ConfiguredIn before config

/-- The first claim of the contract's name that a chain executed was the account's: it was one
    that the contract had sent, or somebody else's. -/
def WonIn (env : Setting ChainId R) (past : List (WorldEvent ChainId)) (chain : ChainId)
    (a : AccountId) : Prop :=
  ∃ before e after, past = before ++ e :: after ∧
    env.nameOwner env.contractId (e.pre.chains chain) = none ∧
    (e.op = .elsewhere chain (.claimName (.signed a) env.contractId) ∨
      ∃ index claim, e.op = .deliver index ∧ e.pre.sent[index]? = some claim ∧
        env.chainOf claim.rpc = chain ∧ claim.palletId = env.anchorIndex chain ∧
        env.publicKey claim.submitKey = a ∧ SentIn env before claim)

section Past

variable {past : List (WorldEvent ChainId)}

/-- What was configured in a past was configured in a longer one. -/
theorem ConfiguredIn.append {config : Config} (h : ConfiguredIn past config)
    (later : List (WorldEvent ChainId)) : ConfiguredIn (past ++ later) config := by
  obtain ⟨e, he, hconfigured⟩ := h
  exact ⟨e, List.mem_append_left _ he, hconfigured⟩

/-- What was sent in a past was sent in a longer one. -/
theorem SentIn.append {claim : Claim} (h : SentIn env past claim)
    (later : List (WorldEvent ChainId)) : SentIn env (past ++ later) claim := by
  obtain ⟨before, e, after, rfl, hsent⟩ := h
  exact ⟨before, e, after ++ later, by rw [List.append_assoc, List.cons_append], hsent⟩

/-- What was won in a past was won in a longer one. -/
theorem WonIn.append {chain : ChainId} {a : AccountId} (h : WonIn env past chain a)
    (later : List (WorldEvent ChainId)) : WonIn env (past ++ later) chain a := by
  obtain ⟨before, e, after, rfl, hwon⟩ := h
  exact ⟨before, e, after ++ later, by rw [List.append_assoc, List.cons_append], hwon⟩

end Past

section Traced

variable [DecidableEq ChainId]

/-- What the past accounts for. -/
structure Traced (env : Setting ChainId R) (past : List (WorldEvent ChainId)) (w : World ChainId) :
    Prop where
  config : ∀ config, w.contract.config = some config → ConfiguredIn past config
  sent : ∀ claim ∈ w.sent, SentIn env past claim
  won : ∀ chain a, env.nameOwner env.contractId (w.chains chain) = some a → WonIn env past chain a

/-- Only the owner configures, with a key of 32 bytes. -/
theorem config_eq_ok {caller : AccountId} {rpc : String} {palletId : UInt8} {submitKey : Bytes}
    {contract contract' : Contract}
    (h : config caller rpc palletId submitKey contract = .ok contract') :
    caller = contract.owner ∧ ∃ key : FixedBytes 32, key.toList = submitKey ∧
      contract' = { contract with config := some ⟨rpc, palletId, key⟩ } := by
  obtain ⟨_, howner, h⟩ := Exec.bind_eq_ok.mp h
  obtain ⟨key, hkey, h⟩ := Exec.bind_eq_ok.mp h
  refine ⟨ensure_eq_ok.mp howner, key, ?_, (Exec.pure_eq_ok.mp h).symm⟩
  have hkey := okOr_eq_ok.mp hkey
  unfold keyOfBytes at hkey
  split at hkey
  · obtain rfl := Option.some.inj hkey
    rfl
  · cases hkey

/-- A transfer changes the owner and nothing else. -/
theorem transferOwnership_eq_ok {caller newOwner : AccountId} {contract contract' : Contract}
    (h : transferOwnership caller newOwner contract = .ok contract') :
    contract' = { contract with owner := newOwner } := by
  obtain ⟨_, _, h⟩ := Exec.bind_eq_ok.mp h
  exact (Exec.pure_eq_ok.mp h).symm

/-- What an operation does to the contract's configuration and to what it has sent. -/
theorem dispatch_contract {op : Op ChainId} (hdocumented : op.Documented env)
    (w : World ChainId) :
    let w' := (env.dispatch op w).2
    (w'.contract.config = w.contract.config ∧ w'.sent = w.sent) ∨
      (w'.sent = w.sent ∧ ∃ config, op = .config w.contract.owner config.rpc config.palletId
        config.submitKey.toList ∧ w'.contract.config = some config) ∨
      (w'.contract.config = w.contract.config ∧ ∃ client config,
        op = .maybeInitRollup client ∧ w.contract.config = some config ∧
          w'.sent = w.sent ++ [config.claim env.contractId]) := by
  cases op with
  | config caller rpc palletId submitKey =>
    rcases update_cases w (config caller rpc palletId submitKey w.contract) with
      h | ⟨contract, hok, h⟩
    · exact .inl (by rw [Setting.dispatch, h]; exact ⟨rfl, rfl⟩)
    · obtain ⟨rfl, key, rfl, rfl⟩ := config_eq_ok hok
      exact .inr (.inl (by rw [Setting.dispatch, h]; exact ⟨rfl, ⟨rpc, palletId, key⟩, rfl, rfl⟩))
  | transferOwnership caller newOwner =>
    rcases update_cases w (transferOwnership caller newOwner w.contract) with
      h | ⟨contract, hok, h⟩
    · exact .inl (by rw [Setting.dispatch, h]; exact ⟨rfl, rfl⟩)
    · obtain rfl := transferOwnership_eq_ok hok
      exact .inl (by rw [Setting.dispatch, h]; exact ⟨rfl, rfl⟩)
  | maybeInitRollup client =>
    rcases maybeInitRollup_cases (hdocumented client rfl) w with h | ⟨config, hconfig, h⟩
    · exact .inl (by rw [Setting.dispatch, h]; exact ⟨rfl, rfl⟩)
    · exact .inr (.inr (by
        rw [Setting.dispatch, h]
        exact ⟨rfl, client, config, rfl, hconfig, rfl⟩))
  | deliver index =>
    have hworld : (env.dispatch (.deliver index) w).2 =
        (w.sent[index]?).elim w (env.deliver · w) := rfl
    rw [hworld]
    refine .inl ?_
    cases w.sent[index]? with
    | none => exact ⟨rfl, rfl⟩
    | some claim =>
      dsimp only [Option.elim_some, Setting.deliver]
      split <;> exact ⟨rfl, rfl⟩
  | elsewhere chain anchorOp => exact .inl ⟨rfl, rfl⟩

/-- The past and one more operation account for the world after it. -/
theorem Traced.step {past : List (WorldEvent ChainId)} {w : World ChainId}
    (h : Traced env past w) {op : Op ChainId} (hdocumented : op.Documented env) :
    Traced env (past ++ [event env.apply w op]) (step env.apply w op) := by
  have hsplit : past ++ [event env.apply w op] = past ++ event env.apply w op :: [] := rfl
  have hstep : Transactional.step env.apply w op = (env.dispatch op w).2 := rfl
  refine ⟨?_, ?_, fun chain a howner => ?_⟩
  · -- the configuration: kept, or just made by the owner
    intro config hconfig
    rw [hstep] at hconfig
    rcases dispatch_contract hdocumented w with
      ⟨hsame, _⟩ | ⟨_, config', hop, hnew⟩ | ⟨hsame, _⟩
    · exact (h.config config (hsame ▸ hconfig)).append _
    · obtain rfl := Option.some.inj (hnew.symm.trans hconfig)
      exact ⟨_, List.mem_append_right _ (List.mem_singleton_self _), hop, hnew⟩
    · exact (h.config config (hsame ▸ hconfig)).append _
  · -- the claims sent: sent before, or now under the configuration that there is
    intro claim hclaim
    rw [hstep] at hclaim
    rcases dispatch_contract hdocumented w with ⟨_, hsame⟩ | ⟨hsame, _⟩ |
      ⟨_, client, config, hop, hconfig, hsent⟩
    · exact (h.sent claim (hsame ▸ hclaim)).append _
    · exact (h.sent claim (hsame ▸ hclaim)).append _
    · rw [hsent] at hclaim
      rcases List.mem_append.mp hclaim with hold | hnew
      · exact (h.sent claim hold).append _
      · exact ⟨past, _, [], hsplit, client, config, hop, hconfig,
          List.mem_singleton.mp hnew, h.config config hconfig⟩
  · rw [hstep] at howner
    rcases dispatch_chains hdocumented w chain with hsame | ⟨anchorOp, hexecutes, hnew⟩
    · exact (h.won chain a (hsame ▸ howner)).append _
    · rw [hnew] at howner
      rcases nameOwner_concat howner with hold | ⟨hnone, rfl⟩
      · exact (h.won chain a hold).append _
      · -- the chain has executed the first claim
        refine ⟨past, _, [], hsplit, hnone, ?_⟩
        rcases hexecutes with hop | ⟨index, claim, hop, hclaim, hchain, hindex, hclaimed⟩
        · exact .inl hop
        · obtain ⟨hsigned, _⟩ := Anchor.Op.claimName.inj hclaimed
          exact .inr ⟨index, claim, hop, hclaim, hchain, hindex, (Origin.signed.inj hsigned).symm,
            h.sent claim (List.mem_of_getElem? hclaim)⟩

/-- When a call answers that the set-up is done, the claim that did it has arrived before: the
    first of the name on that chain, signed with the key that is configured now. Either the
    contract had sent it, under a configuration that its owner of then had made, or somebody
    signed it elsewhere with the same key. -/
theorem setup_by_own_claim (env : Setting ChainId R) (deployer : AccountId)
    (ops : List (Op ChainId)) (hclients : ∀ op ∈ ops, op.Documented env) :
    ∀ before e later, history env.apply (.deployed deployer) ops = before ++ e :: later →
      ∀ client config, e.op = .maybeInitRollup client →
        e.pre.contract.config = some config → e.result = .ok (.ok none) →
          WonIn env before (env.chainOf config.rpc) (env.publicKey config.submitKey) := by
  intro before e later hsplit client config hop hconfig hresult
  obtain ⟨opsBefore, op, opsLater, rfl, rfl, rfl, _⟩ := history_split hsplit
  obtain rfl : op = .maybeInitRollup client := hop
  have htraced : Traced env (history env.apply (.deployed deployer) opsBefore)
      (run env.apply (.deployed deployer) opsBefore) := by
    refine history_induction (P := fun past w => Traced env past w)
      (G := fun e => e.op.Documented env) ?_ (fun past w op hop h => h.step hop) opsBefore
      fun e he => ?_
    · exact ⟨nofun, nofun, nofun⟩
    · obtain ⟨earlier, op, _, rfl, rfl⟩ := mem_history he
      exact hclients op (List.mem_append_left _ (List.mem_append_right _ List.mem_cons_self))
  have hclient : client.Documented env :=
    hclients _ (List.mem_append_right _ List.mem_cons_self) client rfl
  obtain ⟨_, hdone, _⟩ := maybeInitRollup_of_config hclient hconfig
    (run env.apply (.deployed deployer) opsBefore)
  obtain ⟨n, hread⟩ := hdone (Except.ok.inj hresult)
  exact htraced.won _ _ (nameOwner_of_isPrefix (List.take_prefix n _) hread)

/-- In the run above the contract's own claim has won the name. -/
theorem setup_by_own_claim_sample :
    WonIn sampleSetting (history sampleSetting.apply (.deployed (sampleKeyOf 9))
      (setupOps.take 6)) () (sampleKeyOf 2) :=
  setup_by_own_claim sampleSetting (sampleKeyOf 9) setupOps setupOps_documented _
    (event sampleSetting.apply
      (run sampleSetting.apply (.deployed (sampleKeyOf 9)) (setupOps.take 6))
      (.maybeInitRollup (sampleSetting.client (some 1) none))) _ rfl _
    ⟨"rpc", 100, sampleKeyOf 2⟩ rfl rfl rfl

end Traced

end Paraxiom.PhatOracleFeed
