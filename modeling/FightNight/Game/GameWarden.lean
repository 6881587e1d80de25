import FightNight.Game.SampleGame

/-!
# The warden of the games

The contract `GameWarden` creates sample games, starts and stops them, and pays their players
out.  The state holds the games it created, whose code runs when anyone calls them, the native
balance of the contract, and the payments it made, newest first.

A game, once created, is running forever and never gets a ranking, whoever calls the warden or the
games (`game_never_ends`).  And a payout of a stopped game transfers nothing: the first share is
the whole balance of the game, and it is written off before the transfer is decided
(`payoutPlayers_eq`).
-/

namespace FightNight

open Checked Function
open FightNight.Except (bind_eq_ok ok_bind)

structure GameWarden where
  /-- `address(this)`. -/
  self : Address
  owners : List Address
  games : List SampleGame
  balancesByGame : ℕ → ℕ
  /-- `address(this).balance`. -/
  nativeBalance : ℕ
  /-- The payments made so far. -/
  transfers : List (Address × ℕ)

namespace GameWarden

/-- The constructor, run at the address `self`. -/
def deploy (self : Address) (owners : List Address) : GameWarden :=
  ⟨self, owners, [], fun _ => 0, 0, []⟩

/-! ## The functions of the contract -/

/-- The modifier `OnlyOwners`. -/
def onlyOwners (sender : Address) (w : GameWarden) : Except Revert Unit :=
  Except.revertIf (sender ∉ w.owners) (.require "Only owners can call this function")

/-- `games[gameId]`. -/
def game (gameId : ℕ) (w : GameWarden) : Except Revert SampleGame :=
  match w.games[gameId]? with
  | none => .error .outOfBounds
  | some g => .ok g

/-- A call of the game with the given index, by any sender. -/
def callGame (sender : Address) (gameId : ℕ) (call : SampleGame.Call) (w : GameWarden) :
    Except Revert GameWarden := do
  let g ← w.game gameId
  let g ← SampleGame.exec sender call g
  .ok { w with games := w.games.set gameId g }

def startGame (sender : Address) (gameId : ℕ) (players : List Address) (gameBalance : ℕ)
    (w : GameWarden) : Except Revert GameWarden := do
  w.onlyOwners sender
  { w with balancesByGame := update w.balancesByGame gameId gameBalance }.callGame
    w.self gameId (.start players)

/-- `createNewSampleGame`, with the value that is sent. -/
def createNewSampleGame (sender : Address) (value : ℕ) (reporter : Address)
    (players : List Address) (w : GameWarden) : Except Revert GameWarden := do
  w.onlyOwners sender
  let id := w.games.length
  { w with
    nativeBalance := w.nativeBalance + value
    games := w.games ++ [SampleGame.new w.self reporter id] }.startGame sender id players value

def killGame (sender : Address) (gameId : ℕ) (w : GameWarden) : Except Revert GameWarden := do
  w.onlyOwners sender
  w.callGame w.self gameId .forceStop

/-- A transfer of native currency to the player at index `i` of the ranking; it reverts when the
contract does not own the amount or the player does not accept it. -/
def pay (accepts : Address → Bool) (rankings : List Address) (i amount : ℕ) (w : GameWarden) :
    Except Revert GameWarden :=
  match rankings[i]? with
  | none => .error .outOfBounds
  | some player => do
    Except.revertIf (w.nativeBalance < amount ∨ accepts player = false) .bare
    .ok { w with
      nativeBalance := w.nativeBalance - amount
      transfers := (player, amount) :: w.transfers }

/-- The loop of `payoutPlayers`, with the number of rounds that are left and the index `i`. -/
def payoutLoop (accepts : Address → Bool) (gameId gameBalance : ℕ) (rankings : List Address) :
    ℕ → ℕ → GameWarden → Except Revert GameWarden
  | 0, _, w => .ok w
  | rounds + 1, i, w => do
    let divisor ← pow .overflow 2 i
    let payout ← div .divisionByZero gameBalance divisor
    let left ← sub .overflow (w.balancesByGame gameId) payout
    let w := { w with balancesByGame := update w.balancesByGame gameId left }
    if 0 < left then do
      let w ← w.pay accepts rankings i payout
      payoutLoop accepts gameId gameBalance rankings rounds (i + 1) w
    -- The source tests the same condition again.
    else if 0 < left then do
      let w ← w.pay accepts rankings i left
      payoutLoop accepts gameId gameBalance rankings rounds (i + 1) w
    else .ok w

def payoutPlayers (accepts : Address → Bool) (sender : Address) (gameId : ℕ) (w : GameWarden) :
    Except Revert GameWarden := do
  w.onlyOwners sender
  let g ← w.game gameId
  Except.revertIf (g.isRunning = true) .gameStillRunning
  let rankings ← g.getRankings
  payoutLoop accepts gameId (w.balancesByGame gameId) rankings (rankings.length / 2) 0 w

/-! ## Runs -/

inductive Call where
  | createNewSampleGame (value : ℕ) (reporter : Address) (players : List Address)
  | killGame (gameId : ℕ)
  | payoutPlayers (gameId : ℕ)
  | game (gameId : ℕ) (call : SampleGame.Call)

/-- The code of the warden and its games, for a sender and a call. -/
def exec (accepts : Address → Bool) : Address × Call → GameWarden → Except Revert GameWarden
  | (sender, .createNewSampleGame value reporter players), w =>
    w.createNewSampleGame sender value reporter players
  | (sender, .killGame gameId), w => w.killGame sender gameId
  | (sender, .payoutPlayers gameId), w => w.payoutPlayers accepts sender gameId
  | (sender, .game gameId call), w => w.callGame sender gameId call

/-- The state after a sequence of calls. -/
abbrev run (accepts : Address → Bool) (calls : List (Address × Call)) (w : GameWarden) :
    GameWarden :=
  Run.runAll (exec accepts) calls w

/-! ## A created game never ends -/

/-- The game with the given index exists and is started. -/
def GameStarted (gameId : ℕ) (w : GameWarden) : Prop :=
  ∃ g, w.games[gameId]? = some g ∧ g.Started

variable {w w' : GameWarden} {accepts : Address → Bool} {sender : Address}
  {gameBalance gameId i k : ℕ} {players rankings : List Address} {g : SampleGame}

lemma GameStarted.not_stopped (hw : w.GameStarted gameId) (hg : w.games[gameId]? = some g) :
    g.isRunning ≠ false := by
  obtain ⟨g', hg', hstart⟩ := hw
  have hsame : g' = g := Option.some.inj (hg'.symm.trans hg)
  rw [SampleGame.isRunning, ← hsame, hstart.live]
  decide

lemma game_ok (h : w.game gameId = .ok g) : w.games[gameId]? = some g := by
  unfold game at h
  split at h
  · cases h
  · grind

lemma callGame_started {call : SampleGame.Call} (hw : w.GameStarted k)
    (h : w.callGame sender i call = .ok w') : w'.GameStarted k := by
  obtain ⟨g, hg, h⟩ := bind_eq_ok.mp h
  obtain ⟨g', hg', h⟩ := bind_eq_ok.mp h
  cases h
  obtain ⟨gk, hgk, hstart⟩ := hw
  by_cases hik : i = k
  · subst hik
    have hsame : g = gk := Option.some.inj ((game_ok hg).symm.trans hgk)
    have hlt : i < w.games.length := (getElem?_eq_some_iff.mp hgk).1
    refine ⟨g', ?_, SampleGame.exec_started (hsame ▸ hstart) hg'⟩
    simp [hlt]
  · exact ⟨gk, by simp [hik, hgk], hstart⟩

lemma pay_games {amount : ℕ} (h : w.pay accepts rankings i amount = .ok w') :
    w'.games = w.games := by
  unfold pay at h
  split at h
  · cases h
  · obtain ⟨_, -, h⟩ := bind_eq_ok.mp h
    cases h
    rfl

lemma payoutLoop_games {rounds : ℕ}
    (h : payoutLoop accepts gameId gameBalance rankings rounds i w = .ok w') :
    w'.games = w.games := by
  induction rounds generalizing i w with
  | zero =>
    cases h
    rfl
  | succ rounds ih =>
    obtain ⟨divisor, -, h⟩ := bind_eq_ok.mp h
    obtain ⟨payout, -, h⟩ := bind_eq_ok.mp h
    obtain ⟨left, -, h⟩ := bind_eq_ok.mp h
    split at h
    · obtain ⟨w₁, hpay, h⟩ := bind_eq_ok.mp h
      rw [ih h, pay_games hpay]
    · cases h
      rfl

lemma startGame_started (hw : w.GameStarted k)
    (h : w.startGame sender gameId players gameBalance = .ok w') : w'.GameStarted k := by
  obtain ⟨_, -, h⟩ := bind_eq_ok.mp h
  have hcall : GameStarted k
      { w with balancesByGame := update w.balancesByGame gameId gameBalance } := hw
  exact callGame_started hcall h

lemma exec_started {c : Address × Call} (hw : w.GameStarted k) (h : exec accepts c w = .ok w') :
    w'.GameStarted k := by
  obtain ⟨sender, call⟩ := c
  cases call with
  | createNewSampleGame value reporter players =>
    obtain ⟨_, -, h⟩ := bind_eq_ok.mp h
    refine startGame_started ?_ h
    obtain ⟨g, hg, hstart⟩ := hw
    have hlt : k < w.games.length := (getElem?_eq_some_iff.mp hg).1
    exact ⟨g, by simp [List.getElem?_append_left hlt, hg], hstart⟩
  | killGame gameId =>
    obtain ⟨_, -, h⟩ := bind_eq_ok.mp h
    exact callGame_started hw h
  | payoutPlayers gameId =>
    obtain ⟨_, -, h⟩ := bind_eq_ok.mp h
    obtain ⟨g, -, h⟩ := bind_eq_ok.mp h
    obtain ⟨_, -, h⟩ := bind_eq_ok.mp h
    obtain ⟨rankings, -, h⟩ := bind_eq_ok.mp h
    rwa [GameStarted, payoutLoop_games h]
  | game gameId call => exact callGame_started hw h

lemma createNewSampleGame_started {reporter : Address} {value : ℕ}
    (h : w.createNewSampleGame sender value reporter players = .ok w') :
    w'.GameStarted w.games.length := by
  obtain ⟨_, -, h⟩ := bind_eq_ok.mp h
  obtain ⟨_, -, h⟩ := bind_eq_ok.mp h
  obtain ⟨g, hg, h⟩ := bind_eq_ok.mp h
  obtain ⟨g', hg', h⟩ := bind_eq_ok.mp h
  cases h
  have hnew : g = SampleGame.new w.self reporter w.games.length := by
    have hfound := game_ok hg
    simpa using hfound.symm
  rw [hnew] at hg'
  exact ⟨g', by simp, SampleGame.start_started hg'⟩

lemma run_started (hw : w.GameStarted k) (calls : List (Address × Call)) :
    (run accepts calls w).GameStarted k :=
  Run.runAll_inv (fun _ _ _ _ hs h => exec_started hs h) hw

/-- In every state that any calls lead to after its creation, there is no sequence of calls after
which a game is not running and its ranking is populated. -/
theorem game_never_ends {accepts : Address → Bool} {sender reporter : Address} {value : ℕ}
    {players : List Address} {w w₀ : GameWarden}
    (hcreate : w.createNewSampleGame sender value reporter players = .ok w₀)
    (calls : List (Address × Call)) :
    ¬∃ later : List (Address × Call), ∃ g,
      (run accepts later (run accepts calls w₀)).games[w.games.length]? = some g ∧
      g.isRunning = false ∧ g.rankings ≠ [] := by
  rintro ⟨later, g, hg, hstop, -⟩
  have hstart := createNewSampleGame_started hcreate
  exact (run_started (run_started hstart calls) later).not_stopped hg hstop

/-! ### A sample game -/

def sampleWarden : GameWarden := deploy 5 [1]

/-- The warden after the account 1 has created a game with reporter 2 and players 3 and 4. -/
def sampleCreated : GameWarden :=
  { sampleWarden with
    games := [{ SampleGame.new 5 2 0 with players := [3, 4], isLive := true }]
    balancesByGame := update (fun _ => 0) 0 100
    nativeBalance := 100 }

/-- The sample game cannot be ended from its first state on: no calls stop it. -/
theorem sample_game_stuck :
    sampleWarden.createNewSampleGame 1 100 2 [3, 4] = .ok sampleCreated ∧
    ¬∃ later : List (Address × Call), ∃ g,
      (run (fun _ => true) later sampleCreated).games[0]? = some g ∧ g.isRunning = false ∧
      g.rankings ≠ [] := by
  have hcr : sampleWarden.createNewSampleGame 1 100 2 [3, 4] = .ok sampleCreated := rfl
  refine ⟨hcr, ?_⟩
  rintro ⟨later, g, hg, hstop, -⟩
  have hstart := createNewSampleGame_started hcr
  exact (run_started hstart later).not_stopped hg hstop

/-- The theorem at the sample game, with two players, after its reporter, its owner and a player
have tried to move it. -/
theorem game_never_ends_sample :
    sampleWarden.createNewSampleGame 1 100 2 [3, 4] = .ok sampleCreated ∧
    ¬∃ later : List (Address × Call), ∃ g,
      (run (fun _ => true) later (run (fun _ => true)
        [(2, .game 0 (.setFinalNumber 7)), (1, .killGame 0), (3, .game 0 (.makeGuess 6))]
        sampleCreated)).games[0]? = some g ∧ g.isRunning = false ∧ g.rankings ≠ [] :=
  have hcr : sampleWarden.createNewSampleGame 1 100 2 [3, 4] = .ok sampleCreated := rfl
  ⟨hcr, game_never_ends hcr _⟩

/-! ## A payout transfers nothing -/

def paidTotal (transfers : List (Address × ℕ)) : ℕ := (transfers.map Prod.snd).sum

lemma payoutLoop_first (accepts : Address → Bool) (gameId : ℕ) (rankings : List Address)
    (rounds : ℕ) (w : GameWarden) :
    payoutLoop accepts gameId (w.balancesByGame gameId) rankings (rounds + 1) 0 w =
      .ok { w with balancesByGame := update w.balancesByGame gameId 0 } := by
  have hpow : pow Revert.overflow 2 0 = .ok 1 := rfl
  have hdiv : div Revert.divisionByZero (w.balancesByGame gameId) 1 =
      .ok (w.balancesByGame gameId) := by simp [div]
  have hsub : sub Revert.overflow (w.balancesByGame gameId) (w.balancesByGame gameId) =
      .ok 0 := by simp [sub]
  simp only [payoutLoop, hpow, hdiv, hsub, ok_bind, lt_irrefl, if_false]

/-- A payout by an owner does nothing to a stopped game with fewer than two ranked players, and
otherwise sets the balance of the game to zero without any transfer. -/
theorem payoutPlayers_eq (accepts : Address → Bool) (hsend : sender ∈ w.owners)
    (hgame : w.games[gameId]? = some g) (hstop : g.isRunning = false) :
    w.payoutPlayers accepts sender gameId =
      .ok (if g.rankings.length < 2 then w
        else { w with balancesByGame := update w.balancesByGame gameId 0 }) := by
  have howner : w.onlyOwners sender = .ok () := by simp [onlyOwners, Except.revertIf, hsend]
  have hfound : w.game gameId = .ok g := by simp [game, hgame]
  have hrank : g.getRankings = .ok g.rankings := by
    have hlive : g.isLive = false := hstop
    simp [SampleGame.getRankings, Except.revertIf, hlive, ok_bind]
  have hrun : Except.revertIf (g.isRunning = true) Revert.gameStillRunning = .ok () := by
    simp [Except.revertIf, hstop]
  simp only [payoutPlayers, howner, hfound, hrank, hrun, ok_bind]
  split
  · rw [Nat.div_eq_of_lt ‹_›, payoutLoop]
  · obtain ⟨rounds, hrnd⟩ : ∃ rounds, g.rankings.length / 2 = rounds + 1 :=
      Nat.exists_eq_succ_of_ne_zero (by omega)
    rw [hrnd, payoutLoop_first]

/-- A successful payout lowers the balance of a stopped game by what it transfers exactly when
there are fewer than two ranked players or there was no balance to begin with. -/
theorem payoutPlayers_conserves_iff {accepts : Address → Bool} {sender : Address} {gameId : ℕ}
    {w w' : GameWarden} {g : SampleGame} (hgame : w.games[gameId]? = some g)
    (hstopped : g.isRunning = false) (h : w.payoutPlayers accepts sender gameId = .ok w') :
    w'.balancesByGame gameId + paidTotal w'.transfers =
        w.balancesByGame gameId + paidTotal w.transfers ↔
      g.rankings.length < 2 ∨ w.balancesByGame gameId = 0 := by
  obtain ⟨_, howner, -⟩ := bind_eq_ok.mp h
  have hsend : sender ∈ w.owners := not_not.mp (Except.revertIf_eq_ok.mp howner)
  rw [payoutPlayers_eq _ hsend hgame hstopped] at h
  cases h
  split
  · simp [*]
  · simp [*]

def sampleStoppedGame : SampleGame :=
  { SampleGame.new 5 2 0 with players := [3, 4], rankings := [3, 4], finalNumber := 7 }

/-- A warden whose only game is stopped and has a balance of 100. -/
def sampleStopped : GameWarden :=
  { sampleWarden with
    games := [sampleStoppedGame]
    balancesByGame := update (fun _ => 0) 0 100
    nativeBalance := 100 }

/-- The payout of the stopped sample game succeeds, takes 100 off the balance of the game, and
transfers nothing. -/
theorem payout_transfers_nothing :
    sampleStopped.balancesByGame 0 = 100 ∧ sampleStopped.nativeBalance = 100 ∧
    paidTotal sampleStopped.transfers = 0 ∧
    ((sampleStopped.payoutPlayers (fun _ => true) 1 0).map fun w =>
      (w.balancesByGame 0, paidTotal w.transfers)) = .ok (0, 0) := by
  decide

/-- The theorem at the stopped sample game: its payout succeeds and does not conserve the
balance. -/
theorem payoutPlayers_conserves_iff_sample :
    ∃ w', sampleStopped.payoutPlayers (fun _ => true) 1 0 = .ok w' ∧
      ¬w'.balancesByGame 0 + paidTotal w'.transfers =
        sampleStopped.balancesByGame 0 + paidTotal sampleStopped.transfers := by
  have howner : (1 : Address) ∈ sampleStopped.owners := by decide
  have hgame : sampleStopped.games[0]? = some sampleStoppedGame := rfl
  have hpayout := payoutPlayers_eq (fun _ => true) howner hgame rfl
  refine ⟨_, hpayout, fun hconserved => ?_⟩
  have hcond := (payoutPlayers_conserves_iff hgame rfl hpayout).mp hconserved
  revert hcond
  decide

end GameWarden

end FightNight
