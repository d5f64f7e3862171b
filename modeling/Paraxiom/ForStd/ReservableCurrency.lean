import Mathlib

/-!
# Currencies with reserved balances

The interface of a currency that keeps two balances for each account: a free one, which its
holder may spend, and a reserved one. `reserve` and `unreserve` move funds between the two
balances of one account, `transfer` moves free funds between accounts.

A value of `ReservableCurrency` carries the laws of its operations, so that what is built
over it may rely on them. `ledger` is an instance.
-/

/-- An amount at one account and nothing at the others. -/
def amountAt {AccountId : Type} [DecidableEq AccountId] (who : AccountId) (amount : Nat)
    (a : AccountId) : Nat := if a = who then amount else 0

section AmountAt

variable {AccountId : Type} [DecidableEq AccountId]

@[simp] theorem amountAt_self (who : AccountId) (amount : Nat) :
    amountAt who amount who = amount := if_pos rfl

theorem amountAt_of_ne {who a : AccountId} (h : a ≠ who) (amount : Nat) :
    amountAt who amount a = 0 := if_neg h

end AmountAt

/-- A currency whose `Balances` hold a free and a reserved balance for each account. A
    `transfer` keeps the account that pays alive; `unreserve` moves as much as there is. -/
structure ReservableCurrency (AccountId : Type) [DecidableEq AccountId] where
  Balances : Type
  Error : Type
  minimumBalance : Nat
  freeBalance : Balances → AccountId → Nat
  reservedBalance : Balances → AccountId → Nat
  reserve : AccountId → Nat → Balances → Except Error Balances
  unreserve : AccountId → Nat → Balances → Balances
  transfer : AccountId → AccountId → Nat → Balances → Except Error Balances
  free_reserve : ∀ {who amount b b'}, reserve who amount b = .ok b' →
    ∀ a, freeBalance b' a + amountAt who amount a = freeBalance b a
  reserved_reserve : ∀ {who amount b b'}, reserve who amount b = .ok b' →
    ∀ a, reservedBalance b' a = reservedBalance b a + amountAt who amount a
  free_unreserve : ∀ who amount b a, freeBalance (unreserve who amount b) a =
    freeBalance b a + amountAt who (min amount (reservedBalance b who)) a
  reserved_unreserve : ∀ who amount b a, reservedBalance (unreserve who amount b) a +
    amountAt who (min amount (reservedBalance b who)) a = reservedBalance b a
  free_transfer : ∀ {source dest amount b b'}, transfer source dest amount b = .ok b' →
    ∀ a, freeBalance b' a + amountAt source amount a = freeBalance b a + amountAt dest amount a
  reserved_transfer : ∀ {source dest amount b b'}, transfer source dest amount b = .ok b' →
    ∀ a, reservedBalance b' a = reservedBalance b a

namespace ReservableCurrency

variable {AccountId : Type} [DecidableEq AccountId] (c : ReservableCurrency AccountId)

/-- Unreserving no more than is reserved moves all of it. -/
theorem unreserve_of_le {who : AccountId} {amount : Nat} {b : c.Balances}
    (h : amount ≤ c.reservedBalance b who) (a : AccountId) :
    c.freeBalance (c.unreserve who amount b) a = c.freeBalance b a + amountAt who amount a ∧
      c.reservedBalance (c.unreserve who amount b) a + amountAt who amount a =
        c.reservedBalance b a := by
  have hfree := c.free_unreserve who amount b a
  have hreserved := c.reserved_unreserve who amount b a
  rw [Nat.min_eq_left h] at hfree hreserved
  exact ⟨hfree, hreserved⟩

/-! ## A ledger -/

/-- The free and the reserved balance of each account. -/
abbrev Ledger (AccountId : Type) := AccountId → Nat × Nat

/-- Why a ledger refuses to move funds. -/
inductive LedgerError where
  | insufficientBalance
  | existentialDeposit
  | keepAlive
deriving DecidableEq

/-- Change the two balances of one account. -/
def Ledger.setBalances (b : Ledger AccountId) (who : AccountId) (free reserved : Nat) :
    Ledger AccountId := Function.update b who (free, reserved)

/-- Only the account's balances change. -/
theorem Ledger.setBalances_apply (b : Ledger AccountId) (who : AccountId) (free reserved : Nat)
    (a : AccountId) :
    b.setBalances who free reserved a = if a = who then (free, reserved) else b a := by
  rw [setBalances, Function.update_apply]

/-- Move free funds to the reserve of the account. -/
def Ledger.reserve (who : AccountId) (amount : Nat) (b : Ledger AccountId) :
    Except LedgerError (Ledger AccountId) :=
  if amount ≤ (b who).1 then .ok (b.setBalances who ((b who).1 - amount) ((b who).2 + amount))
  else .error .insufficientBalance

/-- Move up to `amount` from the reserve back. -/
def Ledger.unreserve (who : AccountId) (amount : Nat) (b : Ledger AccountId) : Ledger AccountId :=
  b.setBalances who ((b who).1 + min amount (b who).2) ((b who).2 - min amount (b who).2)

/-- Move free funds between accounts. Neither side may end below the existential deposit;
    a transfer of nothing or to oneself is no transfer. -/
def Ledger.transfer (existentialDeposit : Nat) (source dest : AccountId) (amount : Nat)
    (b : Ledger AccountId) : Except LedgerError (Ledger AccountId) :=
  if amount = 0 ∨ source = dest then .ok b
  else if (b source).1 < amount then .error .insufficientBalance
  else if (b dest).1 + (b dest).2 + amount < existentialDeposit then .error .existentialDeposit
  else if (b source).1 - amount + (b source).2 < existentialDeposit then .error .keepAlive
  else .ok ((b.setBalances source ((b source).1 - amount) (b source).2).setBalances dest
    ((b dest).1 + amount) (b dest).2)

/-- A transfer that succeeds moved nothing, or moved what the source had to the destination. -/
theorem Ledger.transfer_eq_ok {existentialDeposit : Nat} {source dest : AccountId} {amount : Nat}
    {b b' : Ledger AccountId} (h : b.transfer existentialDeposit source dest amount = .ok b') :
    (amount = 0 ∨ source = dest) ∧ b' = b ∨
      source ≠ dest ∧ amount ≤ (b source).1 ∧
        b' = (b.setBalances source ((b source).1 - amount) (b source).2).setBalances dest
          ((b dest).1 + amount) (b dest).2 := by
  unfold Ledger.transfer at h
  split at h
  · rename_i hnone
    exact .inl ⟨hnone, (Except.ok.inj h).symm⟩
  · rename_i hmove
    obtain ⟨_, hne⟩ := not_or.mp hmove
    split at h
    · exact nomatch h
    · rename_i hle
      split at h
      · exact nomatch h
      · split at h
        · exact nomatch h
        · exact .inr ⟨hne, Nat.le_of_not_lt hle, (Except.ok.inj h).symm⟩

/-- Ledgers are the balances of a currency. -/
def ledger (AccountId : Type) [DecidableEq AccountId] (existentialDeposit : Nat) :
    ReservableCurrency AccountId where
  Balances := Ledger AccountId
  Error := LedgerError
  minimumBalance := existentialDeposit
  freeBalance b a := (b a).1
  reservedBalance b a := (b a).2
  reserve := Ledger.reserve
  unreserve := Ledger.unreserve
  transfer := Ledger.transfer existentialDeposit
  free_reserve := by
    intro who amount b b' h a
    unfold Ledger.reserve at h
    split at h
    · obtain rfl := Except.ok.inj h
      rw [Ledger.setBalances_apply, amountAt]
      split
      · subst a; omega
      · omega
    · exact nomatch h
  reserved_reserve := by
    intro who amount b b' h a
    unfold Ledger.reserve at h
    split at h
    · obtain rfl := Except.ok.inj h
      rw [Ledger.setBalances_apply, amountAt]
      split
      · subst a; omega
      · omega
    · exact nomatch h
  free_unreserve who amount b a := by
    rw [Ledger.unreserve, Ledger.setBalances_apply, amountAt]
    split
    · subst a; rfl
    · rfl
  reserved_unreserve who amount b a := by
    rw [Ledger.unreserve, Ledger.setBalances_apply, amountAt]
    split
    · subst a; omega
    · rfl
  free_transfer := by
    intro source dest amount b b' h a
    rcases Ledger.transfer_eq_ok h with ⟨hnone, rfl⟩ | ⟨hne, hle, rfl⟩
    · rcases hnone with rfl | rfl
      · unfold amountAt; split <;> split <;> rfl
      · rfl
    · -- the destination gains what the source loses, and they are different accounts
      rw [Ledger.setBalances_apply, Ledger.setBalances_apply, amountAt, amountAt]
      by_cases hd : a = dest
      · subst hd; rw [if_pos rfl, if_neg (Ne.symm hne), if_pos rfl]; rfl
      · by_cases hs : a = source
        · subst hs; rw [if_neg hd, if_pos rfl, if_pos rfl, if_neg hd]; dsimp only; omega
        · rw [if_neg hd, if_neg hs, if_neg hs, if_neg hd]
  reserved_transfer := by
    intro source dest amount b b' h a
    rcases Ledger.transfer_eq_ok h with ⟨_, rfl⟩ | ⟨_, _, rfl⟩
    · rfl
    · rw [Ledger.setBalances_apply, Ledger.setBalances_apply]
      by_cases hd : a = dest
      · subst hd; rw [if_pos rfl]
      · by_cases hs : a = source
        · subst hs; rw [if_neg hd, if_pos rfl]
        · rw [if_neg hd, if_neg hs]

end ReservableCurrency
