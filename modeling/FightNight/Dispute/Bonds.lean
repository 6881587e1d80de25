import FightNight.Dispute.Walks
import FightNight.Library.CallTree

/-!
# The bonds of a game

Every claim brings a bond, deposited as wrapped ether; when a claim is resolved, its bond is
credited to somebody, who may have the credit paid out by `claimCredit`.  This call hands control
to the recipient, who may call the game again before it returns.

Beside the game is kept what an observer would write down: the ether that came with the calls,
what was paid to whom, and for which claims bonds were distributed.  At every moment at which
another contract has control, nothing is lost, and the bond of every resolved claim was
distributed once.
-/

namespace FightNight.Dispute

open Function ClaimData Game
open FightNight.Except (bind_eq_ok pure_eq_ok revertIf_eq_ok)
open List hiding getElem?_eq_some_iff

/-- A game and the record of what it took in, distributed and paid. -/
structure Escrow where
  game : Game
  deposited : ℕ
  distributed : List (ℕ × Address)
  paid : Address → ℕ

/-- The calls that the bonds depend on.  The contract that holds the wrapped ether may refuse to pay
it out. -/
inductive EscrowCall where
  | initializeGame (tx : GameTx) (anchor : OutputRoot)
  | game (tx : GameTx) (call : GameCall)
  | claimCredit (recipient : Address) (withdraw : Except GameRevert Unit)

/-- The claim whose bond `_distributeBond` is called with, and the recipient. -/
def Game.distribution (s : Game) : GameCall → Option (ℕ × Address)
  | .resolveClaim i n =>
    match s.claimData[i]? with
    | none => none
    | some c =>
      if s.subgames i = [] ∧ i ≠ 0 then some (i, payee c c.counteredBy)
      else
        match s.scanChildren i n with
        | .error _ => none
        | .ok checkpoint =>
          if checkpoint.subgameIndex = (s.subgames i).length then some (i, s.recipient i c checkpoint)
          else none
  | _ => none

namespace Escrow

variable (env : GameEnv)

/-- The contract before `initialize`. -/
def start : Escrow := ⟨.deployed, 0, [], fun _ => 0⟩

/-- The first part of `claimCredit`, up to the call of the recipient, which carries the value. -/
def pay (recipient : Address) (withdraw : Except GameRevert Unit) (s : Escrow) :
    Except GameRevert Escrow := do
  let recipientCredit := s.game.credit recipient
  Except.revertIf (recipientCredit = 0) .noCreditToClaim
  withdraw
  let wethBalance ← Checked.sub .bare s.game.wethBalance recipientCredit
  pure { s with
    game := { s.game with
      credit := update s.game.credit recipient 0
      wethBalance := wethBalance }
    paid := update s.paid recipient (s.paid recipient + recipientCredit) }

/-- The code of the contract.  The only call that hands over control is the payment. -/
def body : EscrowCall → CallTree.Outside Unit Unit GameRevert Escrow → Escrow →
    Except GameRevert Escrow
  | .initializeGame tx anchor, _, s => do
    Except.revertIf (etherSupply ≤ s.game.wethBalance + tx.value) .bare
    let game ← s.game.initializeGame env tx anchor
    pure { s with game := game, deposited := s.deposited + tx.value }
  | .game tx call, _, s => do
    let game ← exec env (tx, call) s.game
    pure { s with
      game := game
      deposited := s.deposited + tx.value
      distributed := s.distributed ++ (s.game.distribution call).toList }
  | .claimCredit recipient withdraw, out, s => do
    let s ← s.pay recipient withdraw
    let (s, ()) ← Except.mapError (fun _ => GameRevert.bondTransferFailed) (out () s)
    pure s

/-- The states in which somebody outside has control: after transactions, and when a recipient is
called. -/
inductive Visited : Escrow → Prop
  | start : Visited start
  | run {s : Escrow} (hs : Visited s) (txs : List (CallTree EscrowCall Unit Unit GameRevert)) :
    Visited (CallTree.execAll (body env) txs s)
  | paying {s s' : Escrow} {recipient : Address} {withdraw : Except GameRevert Unit} (hs : Visited s)
    (h : s.pay recipient withdraw = .ok s') : Visited s'

end Escrow

/-! ## What an observer can check -/

def Game.bondAt (s : Game) (i : ℕ) : ℕ := s.claimData[i]?.elim 0 bond

def Game.openBonds (s : Game) : ℕ :=
  ∑ i ∈ Finset.range s.claimData.length, if s.resolvedSubgames i = true then 0 else s.bondAt i

/-- What was distributed to an account. -/
def Escrow.received (s : Escrow) (a : Address) : ℕ :=
  ((s.distributed.filter fun d => d.2 = a).map fun d => s.game.bondAt d.1).sum

/-- Nothing is lost, and the bond of each resolved claim, and of no other one, was distributed once. -/
structure Escrow.Accounted (s : Escrow) : Prop where
  deposited_eq : s.deposited = s.game.openBonds + ∑ a, s.game.credit a + ∑ a, s.paid a
  wethBalance_eq : s.game.wethBalance = s.game.openBonds + ∑ a, s.game.credit a
  distributed_lt : ∀ d ∈ s.distributed, d.1 < s.game.claimData.length
  once : (s.distributed.map Prod.fst).Nodup
  resolved_iff : ∀ i, i ∈ s.distributed.map Prod.fst ↔ s.game.resolvedSubgames i = true
  received_eq : ∀ a, s.game.credit a + s.paid a = s.received a

variable {env : GameEnv} {tx : GameTx} {s s' : Game} {i : ℕ}

lemma length_congr (h : s'.claimData.map bond = s.claimData.map bond) :
    s'.claimData.length = s.claimData.length := by
  simpa using congrArg length h

lemma bondAt_eq (s : Game) (i : ℕ) : s.bondAt i = (s.claimData.map bond)[i]?.getD 0 := by
  rw [bondAt, getElem?_map]
  cases s.claimData[i]? <;> rfl

lemma bondAt_congr (h : s'.claimData.map bond = s.claimData.map bond) :
    s'.bondAt = s.bondAt := by
  funext i
  rw [bondAt_eq, bondAt_eq, h]

lemma bondAt_concat (hcls : s'.claimData = s.claimData ++ [c]) (hi : i < s.claimData.length) :
    s'.bondAt i = s.bondAt i := by
  rw [bondAt, bondAt, hcls, getElem?_append_left hi]

lemma openBonds_congr (h : s'.claimData.map bond = s.claimData.map bond)
    (hres : s'.resolvedSubgames = s.resolvedSubgames) : s'.openBonds = s.openBonds := by
  rw [openBonds, openBonds, length_congr h, hres, bondAt_congr h]

variable {call : GameCall} {c : ClaimData}

lemma openBonds_concat (hcls : s'.claimData = s.claimData ++ [c])
    (hres : s'.resolvedSubgames = s.resolvedSubgames)
    (hopen : s.resolvedSubgames s.claimData.length = false) :
    s'.openBonds = s.openBonds + c.bond := by
  have hnew : s'.bondAt s.claimData.length = c.bond := by
    rw [bondAt, hcls, getElem?_concat_length, Option.elim_some]
  rw [openBonds, hcls, length_append, length_singleton, Finset.sum_range_succ, hres,
    hopen, openBonds]
  congr 1
  refine Finset.sum_congr rfl fun j hj => ?_
  rw [bondAt_concat hcls (mem_range.mp hj)]

lemma openBonds_resolve (h : s'.claimData.map bond = s.claimData.map bond)
    (hres : s'.resolvedSubgames = update s.resolvedSubgames i true)
    (hopen : s.resolvedSubgames i = false) (hi : i < s.claimData.length) :
    s'.openBonds + s.bondAt i = s.openBonds := by
  have hmem : i ∈ Finset.range s.claimData.length := mem_range.mpr hi
  rw [openBonds, openBonds, length_congr h, hres, bondAt_congr h,
    ← Finset.add_sum_erase _ _ hmem, ← Finset.add_sum_erase _ _ hmem, update_self, if_pos rfl,
    hopen, zero_add, add_comm]
  congr 1
  refine Finset.sum_congr rfl fun j hj => ?_
  rw [update_of_ne (Finset.ne_of_mem_erase hj)]

/-! ## What a call does to the bonds -/

/-- A call takes a deposit and may distribute a bond. -/
inductive Flow (s s' : Game) : ℕ → Option (ℕ × Address) → Prop
  | deposit {c : ClaimData} {value : ℕ} (hclaims : s'.claimData = s.claimData ++ [c])
    (hbond : c.bond = value) (hres : s'.resolvedSubgames = s.resolvedSubgames)
    (hcredit : s'.credit = s.credit) (hweth : s'.wethBalance = s.wethBalance + value) :
    Flow s s' value none
  | same (hbonds : s'.claimData.map bond = s.claimData.map bond)
    (hres : s'.resolvedSubgames = s.resolvedSubgames) (hcredit : s'.credit = s.credit)
    (hweth : s'.wethBalance = s.wethBalance) : Flow s s' 0 none
  | distribute {i : ℕ} {recipient : Address}
    (hbonds : s'.claimData.map bond = s.claimData.map bond)
    (hi : i < s.claimData.length) (hopen : s.resolvedSubgames i = false)
    (hres : s'.resolvedSubgames = update s.resolvedSubgames i true)
    (hcredit : s'.credit = update s.credit recipient (s.credit recipient + s.bondAt i))
    (hweth : s'.wethBalance = s.wethBalance) : Flow s s' 0 (some (i, recipient))

lemma map_bond_set {claims : List ClaimData} (hc : claims[i]? = some c) (a : Address) :
    (claims.set i { c with counteredBy := a }).map bond = claims.map bond := by
  have hcore := congrArg (map bond) (map_core_set hc a)
  rwa [map_map, map_map] at hcore

lemma Flow.settle {c : ClaimData} (hc : s.claimData[i]? = some c)
    (hopen : s.resolvedSubgames i = false) (recipient a : Address) :
    Flow s (s.settle i c recipient a) 0 (some (i, recipient)) := by
  have hbond : s.bondAt i = c.bond := by rw [bondAt, hc, Option.elim_some]
  refine .distribute (map_bond_set hc a) (getElem?_eq_some_iff.mp hc).1 hopen rfl ?_ rfl
  rw [hbond]
  rfl

/-- Only a move carries value. -/
def GameCall.payable : GameCall → Bool
  | .move .. => true
  | _ => false

lemma exec_value (h : exec env (tx, call) s = .ok s') (hcall : call.payable = false) :
    tx.value = 0 := by
  cases call with
  | move _ _ _ _ => cases hcall
  | step _ _ _ _ | challengeRootL2Block _ _ | resolveClaim _ _ | resolve =>
    simp only [exec, bind_eq_ok, revertIf_eq_ok] at h
    obtain ⟨-, hvalue, -⟩ := h
    simpa using hvalue

lemma bond_of_value {n m : ℕ} (h : n + m < etherSupply) : m % 2 ^ 128 = m := by
  rw [etherSupply] at h
  exact Nat.mod_eq_of_lt (by omega)

lemma initializeGame_flow {anchor : OutputRoot} (hsup : s.wethBalance + tx.value < etherSupply)
    (h : s.initializeGame env tx anchor = .ok s') : Flow s s' tx.value none := by
  simp only [initializeGame, bind_eq_ok, pure_eq_ok] at h
  obtain ⟨-, -, -, -, -, -, rfl⟩ := h
  exact .deposit rfl (bond_of_value hsup) rfl rfl rfl

lemma exec_flow (h : exec env (tx, call) s = .ok s') :
    Flow s s' tx.value (s.distribution call) := by
  cases exec_effect h with
  | move hsup hmoved =>
    obtain rfl := hmoved.eq
    exact .deposit rfl (bond_of_value hsup) rfl rfl rfl
  | step hc _ _ =>
    rw [exec_value h rfl]
    exact .same (map_bond_set hc _) rfl rfl rfl
  | challengeRootL2Block _ =>
    rw [exec_value h rfl]
    exact .same rfl rfl rfl rfl
  | leaf hc hopen hleaf =>
    rw [exec_value h rfl, distribution, hc]
    dsimp only
    rw [if_pos hleaf]
    exact .settle hc hopen _ _
  | scan hc _ hleaf hscan hrest =>
    rw [exec_value h rfl, distribution, hc]
    dsimp only
    rw [if_neg hleaf, hscan]
    dsimp only
    rw [if_neg hrest]
    exact .same rfl rfl rfl rfl
  | @settle i _ c checkpoint hc hopen hleaf hscan hlast =>
    rw [exec_value h rfl, distribution, hc]
    dsimp only
    rw [if_neg hleaf, hscan]
    dsimp only
    rw [if_pos hlast]
    have hbond : s.bondAt i = c.bond := by rw [bondAt, hc, Option.elim_some]
    refine .distribute (map_bond_set hc _) (getElem?_eq_some_iff.mp hc).1 hopen rfl ?_ rfl
    rw [hbond]
    rfl
  | resolve _ =>
    rw [exec_value h rfl]
    exact .same rfl rfl rfl rfl

/-! ## Accounts -/

namespace Escrow

variable {t t' : Escrow}

lemma Accounted.lt_of_resolved (h : t.Accounted) (hi : t.game.resolvedSubgames i = true) :
    i < t.game.claimData.length := by
  obtain ⟨d, hd, rfl⟩ := mem_map.mp ((h.resolved_iff i).mpr hi)
  exact h.distributed_lt d hd

variable {game : Game}

lemma received_congr (n : ℕ) (paid : Address → ℕ)
    (hbond : ∀ d ∈ t.distributed, game.bondAt d.1 = t.game.bondAt d.1) (a : Address) :
    received ⟨game, n, t.distributed, paid⟩ a = t.received a := by
  rw [received]
  congr 1
  exact map_congr_left fun d hd => hbond d (mem_of_mem_filter hd)

lemma received_concat (n : ℕ) (paid : Address → ℕ) (i : ℕ) (recipient : Address)
    (hbond : game.bondAt = t.game.bondAt) (a : Address) :
    received ⟨game, n, t.distributed ++ [(i, recipient)], paid⟩ a =
      t.received a + if recipient = a then t.game.bondAt i else 0 := by
  rw [received, received, hbond, filter_append, map_append]
  by_cases ha : recipient = a
  · simp [ha]
  · simp [ha]

lemma Accounted.flow {value : ℕ} {d : Option (ℕ × Address)} (h : t.Accounted)
    (hflow : Flow t.game game value d) :
    Accounted ⟨game, t.deposited + value, t.distributed ++ d.toList, t.paid⟩ := by
  have hdep := h.deposited_eq
  have hweth' := h.wethBalance_eq
  cases hflow with
  | @deposit c _ hcls hbond hres hcred hweth =>
    have hfresh : t.game.resolvedSubgames t.game.claimData.length = false := by
      by_contra hne
      exact lt_irrefl _ (h.lt_of_resolved (by simpa using hne))
    have hopen := openBonds_concat hcls hres hfresh
    rw [Option.toList_none, append_nil]
    refine ⟨?_, ?_, ?_, h.once, ?_, fun a => ?_⟩
    · simp only [hcred]
      omega
    · simp only [hcred]
      omega
    · intro d hd
      simp only [hcls, length_append]
      exact Nat.lt_add_right _ (h.distributed_lt d hd)
    · simp only [hres]
      exact h.resolved_iff
    · have hold : ∀ d ∈ t.distributed, game.bondAt d.1 = t.game.bondAt d.1 :=
        fun d hd => bondAt_concat hcls (h.distributed_lt d hd)
      rw [received_congr _ _ hold, ← h.received_eq]
      simp only [hcred]
  | same hbonds hres hcred hweth =>
    have hopen := openBonds_congr hbonds hres
    rw [Option.toList_none, append_nil]
    refine ⟨?_, ?_, ?_, h.once, ?_, fun a => ?_⟩
    · grind
    · grind
    · simp only [length_congr hbonds]
      exact h.distributed_lt
    · simp only [hres]
      exact h.resolved_iff
    · rw [received_congr _ _ (fun d _ => by rw [bondAt_congr hbonds]), ← h.received_eq]
      simp only [hcred]
  | @distribute i recipient hbonds hi hopen hres hcred hweth =>
    have hbond := openBonds_resolve hbonds hres hopen hi
    have hsum := sum_update_add t.game.credit (t.game.credit recipient + t.game.bondAt i)
      (Finset.mem_univ recipient)
    rw [← hcred] at hsum
    have hnew : i ∉ t.distributed.map Prod.fst := by simp [h.resolved_iff, hopen]
    rw [Option.toList_some]
    refine ⟨?_, ?_, ?_, ?_, ?_, fun a => ?_⟩
    · dsimp only
      omega
    · dsimp only
      omega
    · rw [length_congr hbonds]
      exact forall_mem_append.mpr ⟨h.distributed_lt, forall_mem_singleton.mpr hi⟩
    · rw [map_append, map_singleton, ← concat_eq_append]
      exact h.once.concat hnew
    · intro j
      rw [map_append, map_singleton, mem_append, h.resolved_iff, hres]
      by_cases hj : j = i
      · simp [hj]
      · simp [hj]
    · rw [received_concat _ _ _ _ (bondAt_congr hbonds), ← h.received_eq, hcred, update_apply]
      dsimp only
      by_cases ha : a = recipient
      · grind
      · grind

lemma Accounted.pay {recipient : Address} {withdraw : Except GameRevert Unit} (h : t.Accounted)
    (hpay : t.pay recipient withdraw = .ok t') : t'.Accounted := by
  simp only [Escrow.pay, bind_eq_ok, Checked.sub_eq_ok, pure_eq_ok] at hpay
  obtain ⟨-, -, -, -, _, ⟨hle, rfl⟩, rfl⟩ := hpay
  have hcred := sum_update_add t.game.credit 0 (Finset.mem_univ recipient)
  have hpaid := sum_update_add t.paid (t.paid recipient + t.game.credit recipient)
    (Finset.mem_univ recipient)
  have hdep := h.deposited_eq
  have hweth := h.wethBalance_eq
  refine ⟨?_, ?_, h.distributed_lt, h.once, h.resolved_iff, fun a => ?_⟩
  · change t.deposited = t.game.openBonds + ∑ b, update t.game.credit recipient 0 b +
      ∑ b, update t.paid recipient (t.paid recipient + t.game.credit recipient) b
    omega
  · change t.game.wethBalance - t.game.credit recipient =
      t.game.openBonds + ∑ b, update t.game.credit recipient 0 b
    omega
  · refine trans ?_ (h.received_eq a)
    dsimp only
    rw [update_apply, update_apply]
    by_cases ha : a = recipient
    · rw [if_pos ha, if_pos ha, ha]
      omega
    · rw [if_neg ha, if_neg ha]

lemma body_accounted (call : EscrowCall) (out : CallTree.Outside Unit Unit GameRevert Escrow)
    (hout : CallTree.Respects (fun t t' => t.Accounted → t'.Accounted) out) (t t' : Escrow)
    (hbody : body env call out t = .ok t') (h : t.Accounted) : t'.Accounted := by
  cases call with
  | initializeGame tx anchor =>
    simp only [body, bind_eq_ok, revertIf_eq_ok, pure_eq_ok] at hbody
    obtain ⟨-, hsup, game, hinit, rfl⟩ := hbody
    have hflow := h.flow (initializeGame_flow (lt_of_not_ge hsup) hinit)
    rwa [Option.toList_none, append_nil] at hflow
  | game tx call =>
    simp only [body, bind_eq_ok, pure_eq_ok] at hbody
    obtain ⟨game, hexec, rfl⟩ := hbody
    exact h.flow (exec_flow hexec)
  | claimCredit recipient withdraw =>
    simp only [body, bind_eq_ok, pure_eq_ok] at hbody
    obtain ⟨paying, hpay, ⟨after, _⟩, hcalled, rfl⟩ := hbody
    cases hreply : out () paying with
    | error e =>
      rw [hreply] at hcalled
      cases hcalled
    | ok r =>
      rw [hreply] at hcalled
      cases hcalled
      exact hout () _ _ _ hreply (h.pay hpay)

lemma accounted_start : start.Accounted := by
  have hcred : ∑ a, start.game.credit a = 0 := Finset.sum_eq_zero fun _ _ => rfl
  have hpaid : ∑ a, start.paid a = 0 := Finset.sum_eq_zero fun _ _ => rfl
  refine ⟨?_, ?_, fun d hd => (nomatch hd), nodup_nil, fun i => ?_, fun a => rfl⟩
  · rw [hcred, hpaid]
    rfl
  · rw [hcred]
    rfl
  · exact iff_of_false nofun Bool.false_ne_true

/-- Whenever somebody outside has control, the ether that was deposited is in the bonds of
unresolved claims, in credits and in payments, and the bond of each resolved claim was credited
once. -/
theorem bonds_accounted (h : Visited env t) : t.Accounted := by
  induction h with
  | start => exact accounted_start
  | @run s _ txs ih =>
    have hrun : s.Accounted → (CallTree.execAll (body env) txs s).Accounted :=
      CallTree.execAll_rel (R := fun t t' : Escrow => t.Accounted → t'.Accounted) (fun _ => id)
        (fun _ _ _ hab hbc ha => hbc (hab ha)) body_accounted txs s
    exact hrun ih
  | paying _ hpay ih => exact ih.pay hpay

/-- A game of two claims.  The creator gets both bonds, and calls again when they are paid. -/
def sampleTxs : List (CallTree EscrowCall Unit Unit GameRevert) :=
  let simple := fun call => CallTree.mk call (fun _ => []) fun _ => .ok ()
  [simple (.initializeGame (sampleTx 5 0) ⟨sampleHash 0 3, 0⟩),
    simple (.game (sampleTx (8 * 10 ^ 16) 0) (.move (sampleHash 0 1) 0 (sampleHash 1 4) true)),
    simple (.game (sampleTx 0 1000) (.resolveClaim 1 0)),
    simple (.game (sampleTx 0 1000) (.resolveClaim 0 0)),
    .mk (.claimCredit 1 (.ok ())) (fun _ => [simple (.claimCredit 1 (.ok ())),
      simple (.game (sampleTx 0 1000) .resolve)]) fun _ => .ok ()]

/-- All that was deposited has been paid. -/
theorem bonds_accounted_sample :
    let t := CallTree.execAll (body walkEnv) sampleTxs start
    (t.deposited = 8 * 10 ^ 16 + 5 ∧ t.paid 1 = 8 * 10 ^ 16 + 5 ∧ t.game.status = .challengerWins ∧
      t.distributed = [(1, 1), (0, 1)]) ∧ t.Accounted := by
  intro t
  exact ⟨by decide, bonds_accounted (.run .start sampleTxs)⟩

end Escrow

end FightNight.Dispute
