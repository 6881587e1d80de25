import FightNight.Contracts.Basic
import FightNight.Library.Run

/-!
# The sample game

The contract `SampleGame`: players guess a number, a reporter announces the final number, and the
players are ranked by the distance of their guesses.  The warden that created the game starts and
stops it.  The label, the unused bound on guesses and the events are left out.

A started game without final number stays as it is: the number can be set only after the end of
the game, and the game can end only after the number has been set (`exec_started`).  A guess of 0
does not count, so that a player can guess again (`one_guess_iff`).  And the ranking begins with
the player that is farthest away, so that it is in order only if all are equally far
(`rankings_in_order_iff`).
-/

namespace FightNight

open List
open FightNight.Except (bind_eq_ok revertIf_eq_ok revertIf_of_not ok_bind require_bind)

structure SampleGame where
  warden : Address
  reporter : Address
  players : List Address
  rankings : List Address
  playerGuess : Address → ℕ
  isLive : Bool
  finalNumber : ℕ
  id : ℕ

namespace SampleGame

def new (warden reporter : Address) (id : ℕ) : SampleGame :=
  ⟨warden, reporter, [], [], fun _ => 0, false, 0, id⟩

/-! ## Access -/

/-- The modifier `OnlyWarden`. -/
def onlyWarden (sender : Address) (g : SampleGame) : Except Revert Unit :=
  Except.revertIf (sender ≠ g.warden) (.require "Only the warden can call this function")

/-- The modifier `OnlyReporter`. -/
def onlyReporter (sender : Address) (g : SampleGame) : Except Revert Unit :=
  Except.revertIf (sender ≠ g.reporter) (.require "Only the reporter can call this function")

/-- The modifier `OnlyPlayers`. -/
def onlyPlayers (sender : Address) (g : SampleGame) : Except Revert Unit :=
  Except.revertIf (sender ∉ g.players) (.require "Only players can call this function")

def isRunning (g : SampleGame) : Bool := g.isLive

def getRankings (g : SampleGame) : Except Revert (List Address) := do
  Except.revertIf (g.isLive = true) .gameStillRunning
  .ok g.rankings

/-! ## The ranking -/

def distance (finalNumber guess : ℕ) : ℕ :=
  if finalNumber < guess then guess - finalNumber else finalNumber - guess

/-- The inner loop of `_populateRankings`: scan the distances from index `j` on for one that
exceeds the largest so far. -/
def farthest : List ℕ → ℕ → ℕ → ℕ → ℕ
  | [], _, _, maxIndex => maxIndex
  | d :: distances, j, maxDistance, maxIndex =>
    if maxDistance < d then farthest distances (j + 1) d j
    else farthest distances (j + 1) maxDistance maxIndex

/-- The outer loop of `_populateRankings`, with the number of rounds that are left. -/
def rank (players : List Address) : ℕ → List ℕ → Except Revert (List Address)
  | 0, _ => .ok []
  | rounds + 1, distances => do
    let maxIndex := farthest distances 0 0 0
    match players[maxIndex]? with
    | none => .error .outOfBounds
    | some player => do
      let rest ← rank players rounds (distances.set maxIndex 0)
      .ok (player :: rest)

def populateRankings (g : SampleGame) : Except Revert SampleGame := do
  Except.revertIf (g.isLive = true) (.require "Game is still running")
  Except.revertIf (g.rankings.length ≠ 0) (.require "Rankings already populated")
  Except.revertIf (g.finalNumber = 0) (.require "Final number not set")
  let distances := g.players.map fun player => distance g.finalNumber (g.playerGuess player)
  let rankings ← rank g.players g.players.length distances
  .ok { g with rankings := rankings }

def endGame (g : SampleGame) : Except Revert SampleGame :=
  { g with isLive := false }.populateRankings

/-! ## The functions of the contract -/

def start (sender : Address) (players : List Address) (g : SampleGame) :
    Except Revert SampleGame := do
  g.onlyWarden sender
  Except.revertIf (g.isLive = true ∨ g.players.length ≠ 0) .gameAlreadyStarted
  .ok { g with players := players, isLive := true }

def forceStop (sender : Address) (g : SampleGame) : Except Revert SampleGame := do
  g.onlyWarden sender
  g.endGame

def makeGuess (sender : Address) (guess : ℕ) (g : SampleGame) : Except Revert SampleGame := do
  g.onlyPlayers sender
  Except.revertIf (g.isLive = false) (.require "Game is not live")
  Except.revertIf (g.playerGuess sender ≠ 0) (.require "Player has already made a guess")
  .ok { g with playerGuess := Function.update g.playerGuess sender guess }

def setFinalNumber (sender : Address) (number : ℕ) (g : SampleGame) :
    Except Revert SampleGame := do
  g.onlyReporter sender
  Except.revertIf (g.isLive = true) .gameStillRunning
  { g with finalNumber := number }.endGame

def changeReporter (sender newReporter : Address) (g : SampleGame) :
    Except Revert SampleGame := do
  g.onlyWarden sender
  .ok { g with reporter := newReporter }

/-- The functions that change the state of a game. -/
inductive Call where
  | start (players : List Address)
  | forceStop
  | makeGuess (guess : ℕ)
  | setFinalNumber (number : ℕ)
  | changeReporter (newReporter : Address)
  deriving DecidableEq

/-- The code of a game, run by `sender`. -/
def exec (sender : Address) : Call → SampleGame → Except Revert SampleGame
  | .start players, g => g.start sender players
  | .forceStop, g => g.forceStop sender
  | .makeGuess guess, g => g.makeGuess sender guess
  | .setFinalNumber number, g => g.setFinalNumber sender number
  | .changeReporter newReporter, g => g.changeReporter sender newReporter

/-! ## A started game -/

/-- The game was started, and there is neither a final number nor a ranking. -/
structure Started (g : SampleGame) : Prop where
  live : g.isLive = true
  noFinalNumber : g.finalNumber = 0
  noRankings : g.rankings = []

variable {g g' : SampleGame} {sender : Address}

lemma start_started {warden reporter : Address} {id : ℕ} {players : List Address}
    (h : (new warden reporter id).start sender players = .ok g) : g.Started := by
  obtain ⟨_, -, h⟩ := bind_eq_ok.mp h
  cases h
  exact ⟨rfl, rfl, rfl⟩

lemma endGame_finalNumber (h : g.endGame = .ok g') : g.finalNumber ≠ 0 := by
  obtain ⟨_, -, h⟩ := bind_eq_ok.mp h
  obtain ⟨_, -, h⟩ := bind_eq_ok.mp h
  obtain ⟨_, hfin, -⟩ := bind_eq_ok.mp h
  exact revertIf_eq_ok.mp hfin

lemma exec_started {call : Call} (hg : g.Started) (h : exec sender call g = .ok g') :
    g'.Started := by
  cases call with
  | start players =>
    obtain ⟨_, -, h⟩ := bind_eq_ok.mp h
    obtain ⟨_, hnot, -⟩ := bind_eq_ok.mp h
    exact absurd (Or.inl hg.live) (revertIf_eq_ok.mp hnot)
  | forceStop =>
    obtain ⟨_, -, h⟩ := bind_eq_ok.mp h
    exact absurd hg.noFinalNumber (endGame_finalNumber h)
  | makeGuess guess =>
    obtain ⟨_, -, h⟩ := bind_eq_ok.mp h
    obtain ⟨_, -, h⟩ := bind_eq_ok.mp h
    obtain ⟨_, -, h⟩ := bind_eq_ok.mp h
    cases h
    exact ⟨hg.live, hg.noFinalNumber, hg.noRankings⟩
  | setFinalNumber number =>
    obtain ⟨_, -, h⟩ := bind_eq_ok.mp h
    obtain ⟨_, hnot, -⟩ := bind_eq_ok.mp h
    exact absurd hg.live (revertIf_eq_ok.mp hnot)
  | changeReporter newReporter =>
    obtain ⟨_, -, h⟩ := bind_eq_ok.mp h
    cases h
    exact ⟨hg.live, hg.noFinalNumber, hg.noRankings⟩

/-! ## One guess for each player -/

/-- A call of `makeGuess`, by a player and with a guess. -/
def guess (c : Address × ℕ) (g : SampleGame) : Except Revert SampleGame := g.makeGuess c.1 c.2

/-- The guesses of a player among some calls. -/
def guessesOf (player : Address) (calls : List (Address × ℕ)) : List ℕ :=
  (calls.filter (·.1 = player)).map Prod.snd

/-- The guesses that are accepted from a player whose stored guess is known. -/
def taken : ℕ → List ℕ → List ℕ
  | _, [] => []
  | stored, n :: guesses => if stored = 0 then n :: taken n guesses else []

variable {player : Address} {calls : List (Address × ℕ)} {stored : ℕ}

lemma guessesOf_cons (c : Address × ℕ) :
    guessesOf player (c :: calls) =
      if c.1 = player then c.2 :: guessesOf player calls else guessesOf player calls := by
  by_cases hc : c.1 = player <;> simp [guessesOf, hc]

lemma taken_of_ne (h : stored ≠ 0) (guesses : List ℕ) : taken stored guesses = [] := by
  cases guesses <;> simp [taken, h]

lemma guess_cases (hlive : g.isLive = true) (c : Address × ℕ) :
    (c.1 ∈ g.players ∧ g.playerGuess c.1 = 0 ∧
      guess c g = .ok { g with playerGuess := Function.update g.playerGuess c.1 c.2 }) ∨
    (c.1 ∈ g.players → g.playerGuess c.1 ≠ 0) ∧ ∃ e, guess c g = .error e := by
  by_cases hplay : c.1 ∈ g.players
  · by_cases hsto : g.playerGuess c.1 = 0
    · simp [guess, makeGuess, onlyPlayers, Except.revertIf, hlive, hplay, hsto, ok_bind]
    · exact .inr ⟨fun _ => hsto, _, by
        simp [guess, makeGuess, onlyPlayers, hlive, hplay, hsto]; rfl⟩
  · exact .inr ⟨fun h => absurd h hplay, _, by
      simp [guess, makeGuess, onlyPlayers, hplay]; rfl⟩

lemma run_guesses (hlive : g.isLive = true) (player : Address) (calls : List (Address × ℕ)) :
    guessesOf player (Run.successes guess calls g) =
        (if player ∈ g.players then taken (g.playerGuess player) (guessesOf player calls) else []) ∧
      (player ∈ g.players → (Run.runAll guess calls g).playerGuess player =
        (taken (g.playerGuess player) (guessesOf player calls)).getLastD (g.playerGuess player)) := by
  induction calls generalizing g with
  | nil => simp [Run.successes, guessesOf, taken]
  | cons c calls ih =>
    rw [Run.successes, Run.runAll_cons, Run.attempt, guessesOf_cons]
    obtain ⟨hplay, hsto, hok⟩ | ⟨hsto, e, herror⟩ := guess_cases hlive c
    · obtain ⟨hsucc, hlast⟩ :=
        @ih { g with playerGuess := Function.update g.playerGuess c.1 c.2 } hlive
      rw [hok]
      by_cases hc : c.1 = player
      · subst hc
        simp [guessesOf_cons, taken, hsto, hplay, hsucc, hlast, getLast?_cons]
      · simp only [Function.update_of_ne (symm hc)] at hsucc hlast
        exact ⟨by simpa [guessesOf_cons, hc] using hsucc, by simpa [hc] using hlast⟩
    · rw [herror]
      by_cases hc : c.1 = player
      · subst hc
        by_cases hplay : c.1 ∈ g.players
        · simpa [taken_of_ne (hsto hplay)] using ih hlive
        · simpa [hplay] using ih hlive
      · simpa [hc] using ih hlive

/-- Each player succeeds at most once, and the first guess that succeeded counts, exactly if no
player who has not guessed begins with a 0 and then guesses again. -/
theorem one_guess_iff (hlive : g.isLive = true) (calls : List (Address × ℕ)) :
    (∀ player, (guessesOf player (Run.successes guess calls g)).length ≤ 1 ∧
      ∀ first ∈ (guessesOf player (Run.successes guess calls g)).head?,
        (Run.runAll guess calls g).playerGuess player = first) ↔
    ∀ player ∈ g.players, g.playerGuess player = 0 →
      (guessesOf player calls).length ≤ 1 ∨ (guessesOf player calls).head? ≠ some 0 := by
  refine forall_congr' fun player => ?_
  obtain ⟨hsucc, hsto⟩ := run_guesses hlive player calls
  by_cases hplay : player ∈ g.players
  · rw [hsucc, hsto hplay]
    simp only [hplay]
    by_cases hzero : g.playerGuess player = 0
    · match guessesOf player calls with
      | [] => simp [taken]
      | [n] => simp [taken, hzero]
      | n :: n' :: guesses => by_cases hn : n = 0 <;> simp [taken, hzero, hn]
    · simp [taken_of_ne, hzero]
  · simp [hsucc, hplay]

/-- A game with the players 1 and 2. -/
def twoPlayers : SampleGame := { new 7 8 0 with players := [1, 2], isLive := true }

theorem one_guess_twoPlayers :
    (guessesOf 1 (Run.successes guess [(1, 5), (2, 0), (1, 6)] twoPlayers)).length ≤ 1 :=
  ((one_guess_iff rfl _).mpr (by simp [twoPlayers, guessesOf]) 1).1

/-- The player 1 guesses 0 and then 5, and the second guess counts. -/
theorem guess_again :
    guessesOf 1 (Run.successes guess [(1, 0), (1, 5)] twoPlayers) = [0, 5] ∧
      (Run.runAll guess [(1, 0), (1, 5)] twoPlayers).playerGuess 1 = 5 := by
  decide

/-! ## The order of the ranking -/

/-- How far the guess of a player is from the final number. -/
def far (g : SampleGame) (player : Address) : ℕ := distance g.finalNumber (g.playerGuess player)

section Ranking

variable {d maxDistance maxIndex : ℕ} {distances before : List ℕ} {players rankings : List Address}

/-- No distance is above the one that the inner loop selects. -/
theorem le_farthest (hmax : maxDistance ≤ (before ++ distances).getD maxIndex 0)
    (hpre : ∀ d ∈ before, d ≤ maxDistance) : ∀ d ∈ before ++ distances,
      d ≤ (before ++ distances).getD (farthest distances before.length maxDistance maxIndex) 0 := by
  induction distances generalizing before maxDistance maxIndex with
  | nil => exact fun d hd => (hpre d (by simpa using hd)).trans hmax
  | cons e distances ih =>
    have hlen : before.length + 1 = (before ++ [e]).length := by rw [length_append, length_singleton]
    rw [append_cons] at hmax ⊢
    rw [farthest, hlen]
    split_ifs with he
    · exact ih (by simp [getD])
        (forall_mem_append.mpr ⟨fun d hd => (hpre d hd).trans he.le, by simp⟩)
    · exact ih hmax (forall_mem_append.mpr ⟨hpre, by simpa using he⟩)

lemma farthest_of_le (h : ∀ d ∈ distances, d ≤ maxDistance) (j : ℕ) :
    farthest distances j maxDistance maxIndex = maxIndex := by
  induction distances generalizing j with
  | nil => rfl
  | cons e distances ih =>
    obtain ⟨he, hrest⟩ := forall_mem_cons.mp h
    rw [farthest, if_neg (not_lt.mpr he), ih hrest]

lemma farthest_zeros (n j : ℕ) :
    farthest (replicate n 0 ++ distances) j 0 0 = farthest distances (j + n) 0 0 := by
  induction n generalizing j with
  | zero => rfl
  | succ n ih =>
    rw [replicate_succ, cons_append, farthest, if_neg (lt_irrefl 0), ih, add_right_comm, add_assoc]

/-- Players that are all equally far, but not exact, are ranked in their order. -/
theorem rank_replicate (hd : 0 < d) (done left : List Address) :
    rank (done ++ left) left.length (replicate done.length 0 ++ replicate left.length d) =
      .ok left := by
  induction left generalizing done with
  | nil => rfl
  | cons player left ih =>
    have hfarthest : farthest (replicate done.length 0 ++ d :: replicate left.length d) 0 0 0 =
        done.length := by
      rw [farthest_zeros, farthest, if_pos hd, farthest_of_le fun e he => (eq_of_mem_replicate he).le,
        zero_add]
    have hnext := ih (done ++ [player])
    rw [append_assoc, singleton_append, length_append, length_singleton, replicate_succ',
      append_assoc, singleton_append] at hnext
    rw [length_cons, replicate_succ, rank, hfarthest]
    simp [hnext, ok_bind]

lemma rank_cons {rounds : ℕ} (h : rank players (rounds + 1) distances = .ok rankings) :
    ∃ player rest, players[farthest distances 0 0 0]? = some player ∧
      rank players rounds (distances.set (farthest distances 0 0 0) 0) = .ok rest ∧
      rankings = player :: rest := by
  rw [rank] at h
  split at h
  · cases h
  · rename_i player hplay
    obtain ⟨rest, hrest, h⟩ := bind_eq_ok.mp h
    exact ⟨player, rest, hplay, hrest, (Except.ok.inj h).symm⟩

/-- Exact guesses are all ranked as the first player. -/
theorem not_nodup_of_zeros {n : ℕ} (h : rank players (n + 2) (replicate (n + 2) 0) = .ok rankings) :
    ¬ rankings.Nodup := by
  have hzero : farthest (replicate (n + 2) 0) 0 0 0 = 0 :=
    farthest_of_le (fun e he => (eq_of_mem_replicate he).le) 0
  obtain ⟨player, rest, hplay, hrest, rfl⟩ := rank_cons h
  rw [hzero] at hplay hrest
  obtain ⟨player', rest, hplayer', -, rfl⟩ := rank_cons hrest
  rw [show (replicate (n + 2) 0).set 0 0 = replicate (n + 2) 0 from rfl, hzero, hplay] at hplayer'
  cases hplayer'
  simp

end Ranking

/-- The ranking of a stopped game is a permutation of the players in the order of their distances
exactly if all have the same distance, and it is not 0 if there are several of them. -/
theorem rankings_in_order_iff (hstopped : g.isLive = false) (hrankings : g.rankings = [])
    (hnumber : g.finalNumber ≠ 0) (hplayers : g.players.Nodup) :
    (∃ g', g.populateRankings = .ok g' ∧ g'.rankings.Perm g.players ∧
      g'.rankings.Pairwise fun a b => g.far a ≤ g.far b) ↔
    ∃ d, (∀ player ∈ g.players, g.far player = d) ∧ (d ≠ 0 ∨ g.players.length ≤ 1) := by
  have hpopulate : g.populateRankings =
      (rank g.players g.players.length (g.players.map g.far) >>= fun rankings =>
        .ok { g with rankings := rankings }) := by
    simp only [populateRankings, revertIf_of_not (Bool.eq_false_iff.mp hstopped),
      revertIf_of_not hnumber, hrankings, length_nil]
    rfl
  rw [hpopulate]
  constructor
  · rintro ⟨g', h, hperm, hsorted⟩
    obtain ⟨rankings, hrank, h⟩ := bind_eq_ok.mp h
    cases h
    match hcnt : g.players.length with
    | 0 =>
      rw [length_eq_zero_iff.mp hcnt]
      exact ⟨1, nofun, .inl one_ne_zero⟩
    | n + 1 =>
      rw [hcnt] at hrank
      obtain ⟨first, rest, hfirst, -, hcons⟩ := rank_cons hrank
      -- the first one is as far as any other, and no other is nearer
      have hall : ∀ player ∈ g.players, g.far player = g.far first := by
        intro player hplay
        have hle := @le_farthest 0 0 (g.players.map g.far) [] (Nat.zero_le _) nofun
          (g.far player) (mem_map_of_mem hplay)
        rw [length_nil, nil_append, getD_eq_getElem?_getD, getElem?_map, hfirst] at hle
        refine hle.antisymm ?_
        rw [hcons] at hperm hsorted
        rcases mem_cons.mp (hperm.mem_iff.mpr hplay) with rfl | hmem
        · exact le_rfl
        · exact (pairwise_cons.mp hsorted).1 player hmem
      refine ⟨g.far first, hall, or_iff_not_imp_left.mpr fun hzero => ?_⟩
      rw [not_not] at hzero
      by_contra hmany
      obtain ⟨n, rfl⟩ : ∃ m, n = m + 1 := ⟨n - 1, by omega⟩
      have hzeros : g.players.map g.far = replicate (n + 2) 0 := by
        refine eq_replicate_iff.mpr ⟨(length_map _).trans hcnt, ?_⟩
        exact forall_mem_map.mpr fun player hplay => (hall player hplay).trans hzero
      exact not_nodup_of_zeros (hzeros ▸ hrank) (hperm.nodup_iff.mpr hplayers)
  · rintro ⟨d, hall, hd⟩
    have hrank : rank g.players g.players.length (g.players.map g.far) = .ok g.players := by
      have hmap : g.players.map g.far = replicate g.players.length d :=
        eq_replicate_iff.mpr ⟨length_map _, forall_mem_map.mpr hall⟩
      rw [hmap]
      rcases hd with hd | hone
      · exact rank_replicate (pos_of_ne_zero hd) [] g.players
      · match g.players, hone with
        | [], _ => rfl
        | [player], _ => cases d <;> rfl
    refine ⟨_, by rw [hrank, ok_bind], .refl _, ?_⟩
    exact pairwise_of_forall_mem_list fun a ha b hb => ((hall a ha).trans (hall b hb).symm).le

theorem rankings_in_order_twoPlayers : ∃ g',
    populateRankings { twoPlayers with isLive := false, finalNumber := 3 } = .ok g' ∧
      g'.rankings.Perm [1, 2] := by
  obtain ⟨g', hg', hperm, -⟩ := (@rankings_in_order_iff
    { twoPlayers with isLive := false, finalNumber := 3 } rfl rfl (by decide)
      (by simp [twoPlayers])).mpr ⟨3, by simp [twoPlayers, far, new, distance], .inl (by decide)⟩
  exact ⟨g', hg', hperm⟩

/-- With a final number of 3, the guess 7 is ranked before the guess 4; and the exact guess of the
player 2 is ranked as another one of the player 1. -/
theorem rankings_out_of_order :
    (populateRankings { twoPlayers with
      isLive := false, finalNumber := 3, playerGuess := fun a => if a = 1 then 7 else 4 }).map
        rankings = .ok [1, 2] ∧
    (populateRankings { twoPlayers with
      isLive := false, finalNumber := 3, playerGuess := fun a => if a = 1 then 7 else 3 }).map
        rankings = .ok [1, 1] := by
  decide

end SampleGame

end FightNight
