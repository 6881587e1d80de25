import Mathlib.Algebra.Order.BigOperators.Group.Finset
import FightNight.Contracts.Basic

/-!
# The ERC-20 ledger

The storage and the internal functions of the ERC-20 base contract: `update` moves value
between two accounts, with the zero address standing for minting and burning, and
`spendAllowance` charges an allowance.  Arithmetic in `unchecked` blocks wraps around modulo
`2 ^ 256`, the rest is checked.

The ledger is consistent (`Balanced`) when the balances add up to the total supply and the total
supply fits in a word; then the unchecked additions cannot wrap, and `update` keeps it so.
-/

namespace FightNight

open FightNight.Except Finset Function

/-- The storage of the ERC-20 base contract. -/
structure ERC20 where
  balances : Address → ℕ
  allowances : Address → Address → ℕ
  totalSupply : ℕ

namespace ERC20

def empty : ERC20 := ⟨fun _ => 0, fun _ _ => 0, 0⟩

/-- The first half of `_update`: take `value` from `src`, or create it when `src` is the zero
address. -/
def debit (src : Address) (value : ℕ) (l : ERC20) : Except Revert ERC20 :=
  if src = 0 then do
    let totalSupply ← Checked.add .overflow l.totalSupply value
    .ok { l with totalSupply := totalSupply }
  else if l.balances src < value then
    .error (.erc20InsufficientBalance src (l.balances src) value)
  else
    .ok { l with balances := update l.balances src (l.balances src - value) }

/-- The second half of `_update`: give `value` to `dst`, or destroy it when `dst` is the zero
address.  Both branches are unchecked. -/
def credit (dst : Address) (value : ℕ) (l : ERC20) : ERC20 :=
  if dst = 0 then
    { l with totalSupply := (l.totalSupply + 2 ^ 256 - value) % 2 ^ 256 }
  else
    { l with balances := update l.balances dst ((l.balances dst + value) % 2 ^ 256) }

/-- `_update`: move `value` from `src` to `dst`. -/
def update (src dst : Address) (value : ℕ) (l : ERC20) : Except Revert ERC20 := do
  let l ← l.debit src value
  .ok (l.credit dst value)

/-- `_approve`: set the allowance of `spender` over the tokens of `owner`. -/
def approve (owner spender : Address) (value : ℕ) (l : ERC20) : Except Revert ERC20 := do
  revertIf (owner = 0) (.erc20InvalidApprover 0)
  revertIf (spender = 0) (.erc20InvalidSpender 0)
  .ok { l with allowances :=
    Function.update l.allowances owner (Function.update (l.allowances owner) spender value) }

/-- `_spendAllowance`: charge the allowance, unless it is unlimited. -/
def spendAllowance (owner spender : Address) (value : ℕ) (l : ERC20) : Except Revert ERC20 :=
  if l.allowances owner spender = 2 ^ 256 - 1 then .ok l
  else if l.allowances owner spender < value then
    .error (.erc20InsufficientAllowance spender (l.allowances owner spender) value)
  else l.approve owner spender (l.allowances owner spender - value)

/-! ## What `update` does -/

variable {value : ℕ} {l l' m : ERC20} {a dst owner spender src : Address}

/-- The ledger after taking value out: allowances are untouched, and either the supply grew by
the value or the balance of a holder other than the zero address shrank by it. -/
theorem debit_cases (h : l.debit src value = .ok l') :
    (src = 0 ∧ l.totalSupply + value < 2 ^ 256 ∧
      l' = { l with totalSupply := l.totalSupply + value }) ∨
    (src ≠ 0 ∧ value ≤ l.balances src ∧
      l' = { l with balances := Function.update l.balances src (l.balances src - value) }) := by
  unfold debit at h
  split at h
  · obtain ⟨n, hn, h⟩ := bind_eq_ok.mp h
    obtain ⟨hlt, rfl⟩ := Checked.add_eq_ok.mp hn
    exact Or.inl ⟨‹_›, hlt, (Except.ok.inj h).symm⟩
  · split at h
    · cases h
    · exact Or.inr ⟨‹_›, not_lt.mp ‹_›, (Except.ok.inj h).symm⟩

lemma update_eq_ok :
    l.update src dst value = .ok l' ↔ ∃ m, l.debit src value = .ok m ∧ m.credit dst value = l' := by
  unfold update
  rw [bind_eq_ok]
  simp

lemma update_allowances (h : l.update src dst value = .ok l') : l'.allowances = l.allowances := by
  obtain ⟨m, hm, rfl⟩ := update_eq_ok.mp h
  have hc : (m.credit dst value).allowances = m.allowances := by
    unfold credit
    split <;> rfl
  rw [hc]
  rcases debit_cases hm with ⟨-, -, rfl⟩ | ⟨-, -, rfl⟩ <;> rfl

lemma credit_totalSupply (hdst : dst ≠ 0) (value : ℕ) (l : ERC20) :
    (l.credit dst value).totalSupply = l.totalSupply := by
  simp [credit, hdst]

lemma update_totalSupply_mint (hdst : dst ≠ 0) (h : l.update 0 dst value = .ok l') :
    l'.totalSupply = l.totalSupply + value := by
  obtain ⟨m, hm, rfl⟩ := update_eq_ok.mp h
  rw [credit_totalSupply hdst]
  rcases debit_cases hm with ⟨-, -, rfl⟩ | ⟨h0, -, -⟩
  · rfl
  · exact absurd rfl h0

lemma update_totalSupply_transfer (hsrc : src ≠ 0) (hdst : dst ≠ 0)
    (h : l.update src dst value = .ok l') : l'.totalSupply = l.totalSupply := by
  obtain ⟨m, hm, rfl⟩ := update_eq_ok.mp h
  rw [credit_totalSupply hdst]
  rcases debit_cases hm with ⟨h0, -, -⟩ | ⟨-, -, rfl⟩
  · exact absurd h0 hsrc
  · rfl

/-! ## Consistency of the ledger -/

/-- The balances add up to the total supply, which fits in a word. -/
structure Balanced (l : ERC20) : Prop where
  sum_eq : ∑ a, l.balances a = l.totalSupply
  lt : l.totalSupply < 2 ^ 256

lemma balanced_empty : Balanced empty := ⟨by simp [empty], by simp [empty]⟩

/-- Between the two halves of `update` the balances fall short of the total supply by exactly
the value that is being moved. -/
theorem debit_sum (hl : l.Balanced) (h : l.debit src value = .ok m) :
    ∑ a, m.balances a + value = m.totalSupply ∧ m.totalSupply < 2 ^ 256 := by
  rcases debit_cases h with ⟨-, hlt, rfl⟩ | ⟨-, hle, rfl⟩
  · exact ⟨congrArg (· + value) hl.sum_eq, hlt⟩
  · refine ⟨?_, hl.lt⟩
    have hs := sum_update_add l.balances (l.balances src - value) (mem_univ src)
    have := hl.sum_eq
    simp only
    omega

lemma debit_add_lt (hl : l.Balanced) (h : l.debit src value = .ok m) (a : Address) :
    m.balances a + value < 2 ^ 256 := by
  obtain ⟨hsum, hlt⟩ := debit_sum hl h
  have : m.balances a ≤ ∑ x, m.balances x := single_le_sum (fun _ _ => Nat.zero_le _) (mem_univ a)
  omega

lemma update_balanced (hl : l.Balanced) (hdst : dst ≠ 0) (h : l.update src dst value = .ok l') :
    l'.Balanced := by
  obtain ⟨m, hm, rfl⟩ := update_eq_ok.mp h
  obtain ⟨hsum, hlt⟩ := debit_sum hl hm
  have hroom := debit_add_lt hl hm dst
  refine ⟨?_, by rw [credit_totalSupply hdst]; exact hlt⟩
  have hs := sum_update_add m.balances (m.balances dst + value) (mem_univ dst)
  simp only [credit, hdst, if_false, Nat.mod_eq_of_lt hroom]
  omega

lemma update_balance (hl : l.Balanced) (hdst : dst ≠ 0) (ha : src = a → src = 0 ∨ value = 0)
    (h : l.update src dst value = .ok l') :
    l'.balances a = l.balances a + if dst = a then value else 0 := by
  obtain ⟨m, hm, rfl⟩ := update_eq_ok.mp h
  have hroom := debit_add_lt hl hm dst
  have hma : m.balances a = l.balances a := by
    rcases debit_cases hm with ⟨-, -, rfl⟩ | ⟨h0, -, rfl⟩
    · rfl
    · by_cases hsa : src = a
      · have hv := (ha hsa).resolve_left h0
        subst hsa hv
        simp
      · simp [update_of_ne (symm hsa)]
  simp only [credit, hdst, Nat.mod_eq_of_lt hroom]
  by_cases hda : dst = a
  · subst hda
    simp [hma]
  · grind

lemma approve_ok (h : l.approve owner spender value = .ok l') :
    l' = { l with
      allowances := Function.update l.allowances owner
        (Function.update (l.allowances owner) spender value) } := by
  obtain ⟨-, -, h⟩ := bind_eq_ok.mp h
  obtain ⟨-, -, h⟩ := bind_eq_ok.mp h
  exact (Except.ok.inj h).symm

lemma spendAllowance_cases (h : l.spendAllowance owner spender value = .ok l') :
    (l.allowances owner spender = 2 ^ 256 - 1 ∧ l' = l) ∨
    (value ≤ l.allowances owner spender ∧
      l.approve owner spender (l.allowances owner spender - value) = .ok l') := by
  unfold spendAllowance at h
  split at h
  · exact Or.inl ⟨‹_›, (Except.ok.inj h).symm⟩
  · split at h
    · cases h
    · exact Or.inr ⟨not_lt.mp ‹_›, h⟩

lemma spendAllowance_frame (h : l.spendAllowance owner spender value = .ok l') :
    l'.balances = l.balances ∧ l'.totalSupply = l.totalSupply := by
  rcases spendAllowance_cases h with ⟨-, rfl⟩ | ⟨-, h⟩
  · exact ⟨rfl, rfl⟩
  · rw [approve_ok h]
    exact ⟨rfl, rfl⟩

lemma approve_noAllowance (hzero : ∀ s, l.allowances a s = 0) (howner : owner = a → value = 0)
    (h : l.approve owner spender value = .ok l') (s : Address) : l'.allowances a s = 0 := by
  rw [approve_ok h]
  by_cases ha : a = owner
  · subst ha
    by_cases hs : s = spender
    · simp [hs, howner]
    · simp [update_of_ne hs, hzero]
  · simp [update_of_ne ha, hzero]

/-- When nobody has an allowance over the tokens of `a`, only the value zero can be charged for
`a`, and nobody has an allowance afterwards. -/
theorem spendAllowance_noAllowance (hzero : ∀ s, l.allowances a s = 0)
    (h : l.spendAllowance owner spender value = .ok l') :
    (owner = a → value = 0) ∧ ∀ s, l'.allowances a s = 0 := by
  rcases spendAllowance_cases h with ⟨hmax, rfl⟩ | ⟨hle, h⟩
  · refine ⟨fun ha => ?_, hzero⟩
    rw [ha, hzero] at hmax
    cases hmax
  · refine ⟨fun ha => ?_, approve_noAllowance hzero (fun ha => ?_) h⟩
    · grind
    · rw [ha, hzero, Nat.zero_sub]

end ERC20

end FightNight
