import FightNight.Contracts.Basic
import FightNight.Library.Word

/-!
# Calls with a minimum of gas

`SafeCall.hasMinGas` and `callWithMinGas` of `packages/contracts-bedrock/src/libraries/SafeCall.sol`.
The check is made in words of 256 bits: it keeps its promise exactly when its right-hand side does
not overflow (`hasMinGas_forwards`).
-/

namespace FightNight.SafeCall

def hasMinGas (minGas reservedGas gas : ℕ) : ℕ :=
  Word.iszero (Word.lt (Word.mul gas 63)
    (Word.add (Word.mul minGas 64) (Word.mul (Word.add 40000 reservedGas) 63)))

/-- The gas that a call can forward when `gas` is left: all but one 64th. -/
def forwardable (gas : ℕ) : ℕ := gas - gas / 64

/-- The gas that the target is called with.  All gas that is left is requested, and `spent` is used
up before the request and `cost` from there on. -/
def callWithMinGas (minGas gas spent cost : ℕ) : Except Revert ℕ :=
  if hasMinGas minGas 0 gas = 0 then .error (.require "SafeCall: Not enough gas")
  else .ok (min (gas - spent) (forwardable (gas - spent - cost)))

variable {minGas reservedGas gas : ℕ}

lemma hasMinGas_eq_zero (hsum : minGas * 64 + (40000 + reservedGas) * 63 < 2 ^ 256)
    (hgas : gas < 2 ^ 64) :
    hasMinGas minGas reservedGas gas = 0 ↔
      gas * 63 < minGas * 64 + (40000 + reservedGas) * 63 := by
  rw [hasMinGas, Word.mul, Word.mul, Word.mul, Word.add, Word.add, Word.lt, Word.iszero]
  have hright : (minGas * 64 % 2 ^ 256 + (40000 + reservedGas) % 2 ^ 256 * 63 % 2 ^ 256) % 2 ^ 256 =
      minGas * 64 + (40000 + reservedGas) * 63 := by omega
  rw [hright, Nat.mod_eq_of_lt (by omega)]
  split_ifs <;> simp_all

lemma le_forwardable {spent : ℕ} (h : minGas * 64 + spent * 63 ≤ gas * 63) :
    minGas ≤ forwardable (gas - spent) := by
  rw [forwardable]
  omega

/-- When the check succeeds, the least amount of gas can be forwarded after everything that the
buffer and the reserve pay for exactly when the sum of the check is a word; and then no call is made
with less. -/
theorem hasMinGas_forwards (hres : reservedGas < 2 ^ 64) (hgas : gas < 2 ^ 64)
    (h : hasMinGas minGas reservedGas gas ≠ 0) :
    ((∀ spent ≤ 40000 + reservedGas, minGas ≤ forwardable (gas - spent)) ↔
      minGas * 64 + (40000 + reservedGas) * 63 < 2 ^ 256) ∧
    (minGas * 64 + (40000 + reservedGas) * 63 < 2 ^ 256 → ∀ spent cost given,
      spent + cost ≤ 40000 → callWithMinGas minGas gas spent cost = .ok given → minGas ≤ given) := by
  refine ⟨⟨fun hall => ?_, fun hsum spent hspent => ?_⟩, fun hsum spent cost given hcost hcall => ?_⟩
  · -- What can be forwarded is below `2 ^ 64`.
    have hmin := hall 0 (Nat.zero_le _)
    rw [forwardable] at hmin
    omega
  · have hge := mt (hasMinGas_eq_zero hsum hgas).mpr h
    exact le_forwardable (by omega)
  · rw [callWithMinGas] at hcall
    split_ifs at hcall with hzero
    rw [hasMinGas_eq_zero (by omega) hgas] at hzero
    cases hcall
    have hle : minGas ≤ forwardable (gas - (spent + cost)) := le_forwardable (by omega)
    rw [Nat.sub_sub]
    exact le_min (le_trans hle (by rw [forwardable]; omega)) hle

theorem hasMinGas_forwards_many : 100000 ≤ forwardable (200000 - 40000) :=
  (@hasMinGas_forwards 100000 0 200000 (by decide) (by decide) (by decide)).1.mpr (by decide) _
    (by decide)

/-- A minimum of `2 ^ 250` counts as none: the check succeeds with 40000 gas, and the target is
called with less than that. -/
theorem callWithMinGas_wraps :
    hasMinGas (2 ^ 250) 0 40000 = 1 ∧ forwardable 40000 < 2 ^ 250 ∧
      callWithMinGas (2 ^ 250) 40000 0 2600 = .ok 36816 := by
  decide

end FightNight.SafeCall
