import Mathlib.Algebra.Group.Nat.Defs
import FightNight.Library.Loop
import FightNight.Library.Ancestry

/-!
# The tree of the engine

The tree state of `reth/crates/engine/tree/src/tree/mod.rs`: the executed blocks that are not yet
persisted, by hash, by number and by parent, and the canonical head.  `on_new_head` walks back from
a new head and from the canonical head until the two walks meet.  When the new head is lower than
the canonical head, the two walks are never at the same height, and `on_new_head` finds no chain
(`on_new_head_iff`).
-/

namespace FightNight.Reth

open Option Function Loop FightNight.Path

abbrev B256 := ℕ

/-- `ExecutedBlock`: the fields of the header that the tree uses. -/
structure ExecutedBlock where
  hash : B256
  parentHash : B256
  number : ℕ
  deriving DecidableEq

structure BlockNumHash where
  number : ℕ
  hash : B256
  deriving DecidableEq

inductive NewCanonicalChain where
  | commit (new : List ExecutedBlock)
  | reorg (new old : List ExecutedBlock)
  deriving DecidableEq

structure TreeState where
  blocksByHash : B256 → Option ExecutedBlock
  blocksByNumber : ℕ → List ExecutedBlock
  parentToChild : B256 → List B256
  currentCanonicalHead : BlockNumHash

namespace TreeState

/-- `TreeState::new`. -/
def new (currentCanonicalHead : BlockNumHash) : TreeState where
  blocksByHash := fun _ => none
  blocksByNumber := fun _ => []
  parentToChild := fun _ => []
  currentCanonicalHead

def insertExecuted (s : TreeState) (executed : ExecutedBlock) : TreeState :=
  let hash := executed.hash
  let parentHash := executed.parentHash
  if (s.blocksByHash hash).isSome then s
  else
    let blocksByHash := update s.blocksByHash hash (some executed)
    let children := s.parentToChild parentHash
    let parentToChild := update s.parentToChild parentHash
      (if hash ∈ children then children else children ++ [hash])
    { s with
      blocksByHash
      blocksByNumber := update s.blocksByNumber executed.number
        (s.blocksByNumber executed.number ++ [executed])
      parentToChild := fun h => (parentToChild h).filter fun child => (blocksByHash child).isSome }

def setCanonicalHead (s : TreeState) (newHead : BlockNumHash) : TreeState :=
  { s with currentCanonicalHead := newHead }

/-- `new_head_number - 1` and `current_number -= 1` on 64 bits. -/
def pred64 (n : ℕ) : ℕ := if n = 0 then 2 ^ 64 - 1 else n - 1

/-- The state of the first loop of `on_new_head`: the new chain in descending order, and the hash
and the number below it. -/
structure Walk where
  newChain : List ExecutedBlock
  currentHash : B256
  currentNumber : ℕ

/-- The first loop of `on_new_head`, down to the height of the canonical head. -/
def walkBody (s : TreeState) (w : Walk) : Walk ⊕ Option (List ExecutedBlock × B256) :=
  if s.currentCanonicalHead.number < w.currentNumber then
    match s.blocksByHash w.currentHash with
    | some block =>
      .inl { newChain := w.newChain ++ [block], currentHash := block.parentHash,
             currentNumber := pred64 w.currentNumber }
    | none => .inr none
  else .inr (some (w.newChain, w.currentHash))

/-- The state of the second loop of `on_new_head`. -/
structure Walks where
  newChain : List ExecutedBlock
  oldChain : List ExecutedBlock
  oldHash : B256
  currentHash : B256

/-- The second loop of `on_new_head`: one step back on the canonical chain, and then one on the new
chain unless the fork point is found. -/
def forkBody (s : TreeState) (w : Walks) : Walks ⊕ Option NewCanonicalChain :=
  if w.oldHash ≠ w.currentHash then
    match s.blocksByHash w.oldHash with
    | none => .inr none
    | some block =>
      let oldChain := w.oldChain ++ [block]
      let oldHash := block.parentHash
      if oldHash = w.currentHash then .inr (some (.reorg w.newChain oldChain))
      else
        match s.blocksByHash w.currentHash with
        | none => .inr none
        | some block =>
          .inl { newChain := block :: w.newChain, oldChain, oldHash,
                 currentHash := block.parentHash }
  else .inr (some (.reorg w.newChain w.oldChain))

/-- `on_new_head`, with a bound on the iterations of each loop; without a value when it does not
suffice. -/
def onNewHead (bound : ℕ) (s : TreeState) (newHead : B256) : Option (Option NewCanonicalChain) :=
  match s.blocksByHash newHead with
  | none => some none
  | some newHeadBlock =>
    match run s.walkBody bound
        { newChain := [newHeadBlock], currentHash := newHeadBlock.parentHash,
          currentNumber := pred64 newHeadBlock.number } with
    | none => none
    | some none => some none
    | some (some (newChain, currentHash)) =>
      let newChain := newChain.reverse
      if currentHash = s.currentCanonicalHead.hash then some (some (.commit newChain))
      else
        run s.forkBody bound
          { newChain, oldChain := [], oldHash := s.currentCanonicalHead.hash, currentHash }

/-! ## The chains of a tree -/

/-- The blocks from a hash (without it) up to another one, in ascending order. -/
abbrev Chain (s : TreeState) := Path s.blocksByHash ExecutedBlock.parentHash

/-- The stored blocks are closed under parents down to a common ancestor, which may be stored or
not; below it nothing is stored. -/
structure Closed (s : TreeState) (ancestor : BlockNumHash) : Prop where
  bottom : ∀ b, s.blocksByHash ancestor.hash = some b →
    b.number = ancestor.number ∧ s.blocksByHash b.parentHash = none
  linked : ∀ h b, s.blocksByHash h = some b → h ≠ ancestor.hash →
    (b.parentHash = ancestor.hash ∧ b.number = ancestor.number + 1) ∨
      ∃ p, s.blocksByHash b.parentHash = some p ∧ b.number = p.number + 1

/-- The canonical head is stored, or it is the parent of a stored block. -/
def HeadKnown (s : TreeState) : Prop :=
  (∃ b, s.blocksByHash s.currentCanonicalHead.hash = some b ∧
      b.number = s.currentCanonicalHead.number) ∨
    ∃ h b, s.blocksByHash h = some b ∧ b.parentHash = s.currentCanonicalHead.hash ∧
      b.number = s.currentCanonicalHead.number + 1

/-- A block is on the canonical chain. -/
def OnCanonicalChain (s : TreeState) (h : B256) : Prop :=
  ∃ bs, s.Chain h bs s.currentCanonicalHead.hash

/-- The fork point of two blocks: a common ancestor that all others are ancestors of. -/
def ForkPoint (s : TreeState) (fork h h' : B256) : Prop :=
  (∃ bs, s.Chain fork bs h) ∧ (∃ bs, s.Chain fork bs h') ∧
    ∀ a bs bs', s.Chain a bs h → s.Chain a bs' h' → ∃ cs, s.Chain a cs fork

/-- What a switch to a new head has to report: the path from the canonical head, or the paths from
the fork point to the two heads, the one to the canonical head in descending order. -/
def HeadSwitch (s : TreeState) (newHead : B256) (result : Option NewCanonicalChain) : Prop :=
  (∃ new, s.Chain s.currentCanonicalHead.hash new newHead ∧ result = some (.commit new)) ∨
    ((¬ ∃ new, s.Chain s.currentCanonicalHead.hash new newHead) ∧
      ∃ fork new old, s.ForkPoint fork newHead s.currentCanonicalHead.hash ∧
        s.Chain fork new newHead ∧ s.Chain fork old s.currentCanonicalHead.hash ∧
        result = some (.reorg new old.reverse))

/-- The number of a block plus one, and that of the common ancestor and of the hash below it, which
may not be stored. -/
def rank (s : TreeState) (ancestor : BlockNumHash) (h : B256) : ℕ :=
  match s.blocksByHash h with
  | some b => b.number + 1
  | none => if h = ancestor.hash then ancestor.number + 1 else ancestor.number

variable {s : TreeState} {ancestor : BlockNumHash} {h newHead : B256} {b : ExecutedBlock}

lemma rank_of_get (hget : s.blocksByHash h = some b) : s.rank ancestor h = b.number + 1 := by
  rw [rank, hget]

namespace Closed

variable (hs : s.Closed ancestor)
include hs

lemma rank_ancestor : s.rank ancestor ancestor.hash = ancestor.number + 1 := by
  cases hget : s.blocksByHash ancestor.hash with
  | some b => rw [rank_of_get hget, (hs.bottom b hget).1]
  | none => rw [rank, hget, if_pos rfl]

lemma ranked : Ranked s.blocksByHash ExecutedBlock.parentHash (s.rank ancestor) := by
  intro h b hget
  rw [rank_of_get hget]
  by_cases hanc : h = ancestor.hash
  · subst hanc
    obtain ⟨hnum, hnone⟩ := hs.bottom b hget
    have hne : b.parentHash ≠ ancestor.hash := by
      intro heq
      rw [heq, hget] at hnone
      cases hnone
    rw [rank, hnone, if_neg hne, hnum]
  · rcases hs.linked h b hget hanc with ⟨hpar, hnum⟩ | ⟨p, hp, hnum⟩
    · rw [hpar, hs.rank_ancestor, hnum]
    · rw [rank_of_get hp, hnum]

lemma exists_chain (hget : s.blocksByHash h = some b) : ∃ bs, s.Chain ancestor.hash bs h := by
  induction hn : b.number using Nat.strongRecOn generalizing h b with
  | _ n ih =>
    by_cases hanc : h = ancestor.hash
    · exact ⟨[], hanc ▸ nil h⟩
    · rcases hs.linked h b hget hanc with ⟨hpar, -⟩ | ⟨p, hp, hnum⟩
      · exact ⟨[b], hpar ▸ single hget⟩
      · obtain ⟨bs, hbs⟩ := ih p.number (by omega) hp rfl
        exact ⟨bs ++ [b], concat hget hbs⟩

lemma ancestor_number_le_rank (h : B256) : ancestor.number ≤ s.rank ancestor h := by
  cases hget : s.blocksByHash h with
  | some b =>
    obtain ⟨bs, hbs⟩ := hs.exists_chain hget
    have hrank := hbs.rank_eq hs.ranked
    rw [hs.rank_ancestor] at hrank
    omega
  | none =>
    rw [rank, hget]
    dsimp only
    split
    · omega
    · exact le_refl _

lemma rank_head (hhead : s.HeadKnown) :
    s.rank ancestor s.currentCanonicalHead.hash = s.currentCanonicalHead.number + 1 := by
  rcases hhead with ⟨b, hget, hnum⟩ | ⟨h, b, hget, hpar, hnum⟩
  · rw [rank_of_get hget, hnum]
  · have hrank := hs.ranked h b hget
    rw [rank_of_get hget, hpar] at hrank
    omega

/-- When the canonical head is not stored, it is itself a common ancestor. -/
theorem closed_head (hhead : s.HeadKnown)
    (hnone : s.blocksByHash s.currentCanonicalHead.hash = none) :
    s.Closed s.currentCanonicalHead := by
  refine ⟨?_, ?_⟩
  · intro b hget
    cases hnone.symm.trans hget
  · intro h b hget _
    cases hpar : s.blocksByHash b.parentHash with
    | some p =>
      have hrank := hs.ranked h b hget
      rw [rank_of_get hget, rank_of_get hpar] at hrank
      exact .inr ⟨p, rfl, Nat.succ_injective hrank⟩
    | none =>
      rcases hhead with ⟨c, hc, -⟩ | ⟨h', c, hc, hparent', hnum⟩
      · cases hnone.symm.trans hc
      -- two stored blocks whose parents are not stored have the same parent
      have hsame : ∀ h' c, s.blocksByHash h' = some c → s.blocksByHash c.parentHash = none →
          (h' = ancestor.hash ∧ s.blocksByHash ancestor.hash = some c) ∨
            (s.blocksByHash ancestor.hash = none ∧ c.parentHash = ancestor.hash ∧
              c.number = ancestor.number + 1) := by
        intro h' c hc hno
        by_cases hanc : h' = ancestor.hash
        · exact .inl ⟨hanc, hanc ▸ hc⟩
        · rcases hs.linked h' c hc hanc with ⟨hp, hn⟩ | ⟨p, hp, -⟩
          · exact .inr ⟨hp ▸ hno, hp, hn⟩
          · cases hno.symm.trans hp
      have hno : s.blocksByHash c.parentHash = none := by rw [hparent', hnone]
      refine .inl ?_
      rcases hsame h b hget hpar with ⟨-, hb⟩ | ⟨huns, hp, hn⟩ <;>
        rcases hsame h' c hc hno with ⟨-, hc'⟩ | ⟨hunstored', hp', hn'⟩
      · obtain rfl := some.inj (hb.symm.trans hc')
        exact ⟨hparent', hnum⟩
      · rw [hb] at hunstored'
        cases hunstored'
      · rw [huns] at hc'
        cases hc'
      · exact ⟨hp.trans (hp'.symm.trans hparent'), hn.trans (hn'.symm.trans hnum)⟩

lemma exists_common (hhead : s.HeadKnown) :
    ∃ common, s.Closed common ∧ s.OnCanonicalChain common.hash := by
  cases hsto : s.blocksByHash s.currentCanonicalHead.hash with
  | some b => exact ⟨ancestor, hs, hs.exists_chain hsto⟩
  | none => exact ⟨_, hs.closed_head hhead hsto, [], nil _⟩

end Closed

lemma closed_new (ancestor : BlockNumHash) : (new ancestor).Closed ancestor := by
  refine ⟨?_, ?_⟩ <;> intros <;> contradiction

lemma Closed.setCanonicalHead (hs : s.Closed ancestor) (newHead : BlockNumHash) :
    (s.setCanonicalHead newHead).Closed ancestor := ⟨hs.bottom, hs.linked⟩

/-- Blocks that are inserted on top of the common ancestor or of a stored block keep the tree
closed. -/
theorem Closed.insertExecuted (hs : s.Closed ancestor)
    (hnone : s.blocksByHash ancestor.hash = none) (executed : ExecutedBlock)
    (hne : executed.hash ≠ ancestor.hash)
    (hpar : (executed.parentHash = ancestor.hash ∧ executed.number = ancestor.number + 1) ∨
      ∃ p, s.blocksByHash executed.parentHash = some p ∧ executed.number = p.number + 1) :
    (s.insertExecuted executed).Closed ancestor ∧
      (s.insertExecuted executed).blocksByHash ancestor.hash = none := by
  unfold TreeState.insertExecuted
  dsimp only
  split
  case isTrue => exact ⟨hs, hnone⟩
  case isFalse hnew =>
    have hnot : s.blocksByHash executed.hash = none := not_isSome_iff_eq_none.mp hnew
    have hkeep : ∀ h p, s.blocksByHash h = some p →
        update s.blocksByHash executed.hash (some executed) h = some p := by
      intro h p hp
      have hother : h ≠ executed.hash := by
        rintro rfl
        cases hnot.symm.trans hp
      rw [update_of_ne hother, hp]
    have hbot : update s.blocksByHash executed.hash (some executed) ancestor.hash =
        none := by rw [update_of_ne hne.symm, hnone]
    have hlink : ∀ b : ExecutedBlock,
        ((b.parentHash = ancestor.hash ∧ b.number = ancestor.number + 1) ∨
          ∃ p, s.blocksByHash b.parentHash = some p ∧ b.number = p.number + 1) →
        (b.parentHash = ancestor.hash ∧ b.number = ancestor.number + 1) ∨
          ∃ p, update s.blocksByHash executed.hash (some executed) b.parentHash = some p ∧
            b.number = p.number + 1 := by
      rintro b (hb | ⟨p, hp, hnum⟩)
      · exact .inl hb
      · exact .inr ⟨p, hkeep _ p hp, hnum⟩
    refine ⟨⟨?_, ?_⟩, hbot⟩
    · intro b hget
      exact absurd (hbot.symm.trans hget) (by simp)
    · intro h b hget hanc
      by_cases heq : h = executed.hash
      · subst heq
        dsimp only at hget
        rw [update_self] at hget
        cases hget
        exact hlink _ hpar
      · dsimp only at hget
        rw [update_of_ne heq] at hget
        exact hlink b (hs.linked h b hget hanc)

/-! ## The two loops -/

section Loops

variable (hs : s.Closed ancestor) (hcommon : s.OnCanonicalChain ancestor.hash)
  (hhead : s.HeadKnown) (hget : s.blocksByHash newHead = some b)
include hs hcommon

lemma number_pos (hget : s.blocksByHash newHead = some b) (hoff : ¬ s.OnCanonicalChain newHead) :
    0 < b.number := by
  have hne : newHead ≠ ancestor.hash := by
    rintro rfl
    exact hoff hcommon
  rcases hs.linked newHead b hget hne with ⟨-, hnum⟩ | ⟨p, -, hnum⟩ <;> omega

include hhead

lemma rank_ancestor_le : s.rank ancestor ancestor.hash ≤ s.currentCanonicalHead.number + 1 := by
  obtain ⟨bs, hbs⟩ := hcommon
  rw [← hs.rank_head hhead, hbs.rank_eq hs.ranked]
  exact Nat.le_add_right _ _

include hget

/-- The invariant of the first loop. -/
structure Walk.Inv (s : TreeState) (ancestor : BlockNumHash) (newHead : B256) (number : ℕ)
    (w : Walk) : Prop where
  chain : s.Chain w.currentHash w.newChain.reverse newHead
  rank : s.rank ancestor w.currentHash = w.currentNumber + 1
  below : w.currentNumber + 1 ≤ number
  above : min number (s.currentCanonicalHead.number + 1) ≤ w.currentNumber + 1

/-- The first loop stops at the height of the canonical head, or at once if the new head is not
above it. -/
theorem walk_returns (hpos : 0 < b.number) :
    ∃ r, Returns s.walkBody ⟨[b], b.parentHash, pred64 b.number⟩ r ∧
      ∃ newChain currentHash, r = some (newChain, currentHash) ∧
        s.Chain currentHash newChain.reverse newHead ∧
        s.rank ancestor currentHash = min b.number (s.currentCanonicalHead.number + 1) := by
  have hpred : ∀ n, 0 < n → pred64 n + 1 = n := by
    intro n hn
    unfold pred64
    rw [if_neg (ne_of_gt hn)]
    omega
  have hbelow := rank_ancestor_le hs hcommon hhead
  refine returns_of_measure (Walk.Inv s ancestor newHead b.number) Walk.currentNumber ?_ ?_
  · rintro w hw
    obtain ⟨hchain, hrank, hle, hmin⟩ := hw
    by_cases hlt : s.currentCanonicalHead.number < w.currentNumber
    · -- the block is above the canonical head, and so above the common ancestor
      obtain ⟨bs, hbs⟩ := hs.exists_chain hget
      obtain ⟨cs, hcs⟩ := hbs.of_rank_le hs.ranked hchain (by omega)
      have hne : ancestor.hash ≠ w.currentHash := by grind
      obtain ⟨block, -, hblock, -⟩ := hcs.exists_get hne
      have hpar := hs.ranked w.currentHash block hblock
      have hn := hpred w.currentNumber (by omega)
      refine .inr ⟨⟨w.newChain ++ [block], block.parentHash, pred64 w.currentNumber⟩, ?_,
        ⟨?_, ?_, ?_, ?_⟩, ?_⟩
      · rw [walkBody, if_pos hlt, hblock]
      · rw [List.reverse_append]
        exact cons hblock hchain
      all_goals
        dsimp only
        omega
    · refine .inl ⟨some (w.newChain, w.currentHash), ?_, w.newChain, w.currentHash, rfl, hchain, ?_⟩
      · rw [walkBody, if_neg hlt]
      · omega
  · have hn := hpred b.number hpos
    have hrank := hs.ranked newHead b hget
    rw [rank_of_get hget] at hrank
    refine ⟨single hget, ?_, ?_, ?_⟩ <;> dsimp only <;> omega

omit hget

/-- The invariant of the second loop when the new head is not below the canonical head: the walk on
the new chain is at the height of the other one or one block below it, and every common ancestor is
still before both walks. -/
structure Walks.Inv (s : TreeState) (ancestor : BlockNumHash) (newHead : B256) (w : Walks) :
    Prop where
  new : s.Chain w.currentHash w.newChain newHead
  old : s.Chain w.oldHash w.oldChain.reverse s.currentCanonicalHead.hash
  ranks : s.rank ancestor w.oldHash = s.rank ancestor w.currentHash ∨
    s.rank ancestor w.oldHash = s.rank ancestor w.currentHash + 1
  ahead : ∀ a bs bs', s.Chain a bs newHead → s.Chain a bs' s.currentCanonicalHead.hash →
    (∃ cs, s.Chain a cs w.currentHash) ∧ ∃ cs, s.Chain a cs w.oldHash

variable {cs : List ExecutedBlock} {w : Walks} {a : B256}

omit hcommon hhead in
lemma Walks.Inv.ne_old (hw : w.Inv s ancestor newHead) (hne : w.oldHash ≠ w.currentHash)
    (ha : s.Chain a cs w.currentHash) : a ≠ w.oldHash := by
  rintro rfl
  have hranks := hw.ranks
  exact hne (ha.eq_of_rank_le hs.ranked (by omega))

omit hcommon hhead in
lemma Walks.Inv.ne_current (hw : w.Inv s ancestor newHead) {block : ExecutedBlock}
    (hblock : s.blocksByHash w.oldHash = some block) (hne : block.parentHash ≠ w.currentHash)
    (ha : s.Chain a cs block.parentHash) : a ≠ w.currentHash := by
  rintro rfl
  have hranks := hw.ranks
  have hpar := hs.ranked w.oldHash block hblock
  exact hne (ha.eq_of_rank_le hs.ranked (by omega)).symm

omit hhead in
lemma fork_returns (hget : s.blocksByHash newHead = some b) (hw : w.Inv s ancestor newHead) :
    ∃ r, Returns s.forkBody w r ∧ ∃ fork new old,
      s.ForkPoint fork newHead s.currentCanonicalHead.hash ∧ s.Chain fork new newHead ∧
        s.Chain fork old s.currentCanonicalHead.hash ∧ r = some (.reorg new old.reverse) := by
  refine returns_of_measure (Walks.Inv s ancestor newHead)
    (fun w => s.rank ancestor w.oldHash) ?_ hw
  intro w hw
  obtain ⟨bs, hbs⟩ := hs.exists_chain hget
  obtain ⟨bs', hbs'⟩ := hcommon
  obtain ⟨⟨cs, hcs⟩, cs', hcs'⟩ := hw.ahead _ _ _ hbs hbs'
  by_cases heq : w.oldHash = w.currentHash
  · refine .inl ⟨_, by rw [forkBody, if_neg (not_not.mpr heq)], w.currentHash, w.newChain,
      w.oldChain.reverse, ⟨⟨_, hw.new⟩, ⟨_, heq ▸ hw.old⟩, ?_⟩, hw.new, heq ▸ hw.old, ?_⟩
    · intro a ds ds' ha ha'
      exact (hw.ahead a ds ds' ha ha').1
    · rw [List.reverse_reverse]
  · obtain ⟨block, es, hblock, hes⟩ := hcs'.exists_get (hw.ne_old hs heq hcs)
    have hold : s.Chain block.parentHash (w.oldChain ++ [block]).reverse
        s.currentCanonicalHead.hash := by
      rw [List.reverse_append]
      exact cons hblock hw.old
    by_cases hmeet : block.parentHash = w.currentHash
    · refine .inl ⟨_, by rw [forkBody, if_pos heq, hblock]; exact if_pos hmeet, w.currentHash,
        w.newChain, (w.oldChain ++ [block]).reverse, ⟨⟨_, hw.new⟩, ⟨_, hmeet ▸ hold⟩, ?_⟩, hw.new,
        hmeet ▸ hold, ?_⟩
      · intro a ds ds' ha ha'
        exact (hw.ahead a ds ds' ha ha').1
      · rw [List.reverse_reverse]
    · obtain ⟨block', fs, hblock', hfs⟩ := hcs.exists_get (hw.ne_current hs hblock hmeet hes)
      have hrank := hs.ranked w.oldHash block hblock
      have hrank' := hs.ranked w.currentHash block' hblock'
      have hranks := hw.ranks
      refine .inr ⟨⟨block' :: w.newChain, w.oldChain ++ [block], block.parentHash,
        block'.parentHash⟩, ?_, ⟨cons hblock' hw.new, hold, ?_, ?_⟩, ?_⟩
      · rw [forkBody, if_pos heq, hblock]
        dsimp only
        rw [if_neg hmeet, hblock']
      · dsimp only
        omega
      · intro a ds ds' ha ha'
        obtain ⟨⟨es, hes⟩, es', hes'⟩ := hw.ahead a ds ds' ha ha'
        obtain ⟨gs, hgs⟩ := hes'.of_ne (hw.ne_old hs heq hes) hblock
        obtain ⟨gs', hgs'⟩ := hes.of_ne (hw.ne_current hs hblock hmeet hgs) hblock'
        exact ⟨⟨gs', hgs'⟩, gs, hgs⟩
      · dsimp only
        omega

omit hcommon hhead in
/-- When the walk on the canonical chain starts two blocks or more above the other one, the two
never meet, and the second loop ends without a chain. -/
theorem fork_returns_none (hold : ∃ cs, s.Chain ancestor.hash cs w.oldHash)
    (hgap : s.rank ancestor w.currentHash + 2 ≤ s.rank ancestor w.oldHash) :
    Returns s.forkBody w none := by
  suffices hreturns : ∃ r, Returns s.forkBody w r ∧ r = none by
    obtain ⟨r, hr, rfl⟩ := hreturns
    exact hr
  refine returns_of_measure (fun w => (∃ cs, s.Chain ancestor.hash cs w.oldHash) ∧
    s.rank ancestor w.currentHash + 2 ≤ s.rank ancestor w.oldHash)
    (fun w => s.rank ancestor w.oldHash) ?_ ⟨hold, hgap⟩
  rintro w ⟨⟨cs, hcs⟩, hgap⟩
  have hlow := hs.ancestor_number_le_rank w.currentHash
  have hanc := hs.rank_ancestor
  have hne : ancestor.hash ≠ w.oldHash := by grind
  obtain ⟨block, ds, hblock, hds⟩ := hcs.exists_get hne
  have hrank := hs.ranked w.oldHash block hblock
  have hapart : w.oldHash ≠ w.currentHash := by
    intro heq
    rw [heq] at hgap
    omega
  have hmeet : block.parentHash ≠ w.currentHash := by grind
  cases hblock' : s.blocksByHash w.currentHash with
  | none =>
    refine .inl ⟨none, ?_, rfl⟩
    rw [forkBody, if_pos hapart, hblock]
    dsimp only
    rw [if_neg hmeet, hblock']
  | some block' =>
    have hrank' := hs.ranked w.currentHash block' hblock'
    refine .inr ⟨⟨block' :: w.newChain, w.oldChain ++ [block], block.parentHash,
      block'.parentHash⟩, ?_, ⟨⟨ds, hds⟩, ?_⟩, ?_⟩
    · rw [forkBody, if_pos hapart, hblock]
      dsimp only
      rw [if_neg hmeet, hblock']
    · dsimp only
      omega
    · dsimp only
      omega

end Loops

/-! ## The new chain -/

lemma onNewHead_eq (hget : s.blocksByHash newHead = some b) (bound : ℕ) :
    onNewHead bound s newHead =
      match run s.walkBody bound ⟨[b], b.parentHash, pred64 b.number⟩ with
      | none => none
      | some none => some none
      | some (some (newChain, currentHash)) =>
        if currentHash = s.currentCanonicalHead.hash then some (some (.commit newChain.reverse))
        else run s.forkBody bound
          ⟨newChain.reverse, [], s.currentCanonicalHead.hash, currentHash⟩ := by
  rw [onNewHead, hget]

variable {r : Option NewCanonicalChain} {m n : ℕ}

lemma onNewHead_mono (h : onNewHead n s newHead = some r) (hle : n ≤ m) :
    onNewHead m s newHead = some r := by
  cases hget : s.blocksByHash newHead with
  | none =>
    rw [onNewHead, hget] at h ⊢
    exact h
  | some b =>
    rw [onNewHead_eq hget] at h ⊢
    cases hwalk : run s.walkBody n ⟨[b], b.parentHash, pred64 b.number⟩ with
    | none =>
      rw [hwalk] at h
      cases h
    | some found =>
      rw [run_mono hwalk hle]
      rw [hwalk] at h
      cases found with
      | none => exact h
      | some found =>
        dsimp only at h ⊢
        split
        · rwa [if_pos ‹_›] at h
        · rw [if_neg ‹_›] at h
          exact run_mono h hle

lemma exists_onNewHead (hget : s.blocksByHash newHead = some b) {newChain : List ExecutedBlock}
    {currentHash : B256}
    (hwalk : Returns s.walkBody ⟨[b], b.parentHash, pred64 b.number⟩ (some (newChain, currentHash)))
    (hcommit : currentHash = s.currentCanonicalHead.hash → r = some (.commit newChain.reverse))
    (hfork : currentHash ≠ s.currentCanonicalHead.hash →
      Returns s.forkBody ⟨newChain.reverse, [], s.currentCanonicalHead.hash, currentHash⟩ r) :
    ∃ bound, onNewHead bound s newHead = some r := by
  obtain ⟨n, hn⟩ := hwalk
  by_cases heq : currentHash = s.currentCanonicalHead.hash
  · refine ⟨n, ?_⟩
    rw [onNewHead_eq hget, hn]
    dsimp only
    rw [if_pos heq, hcommit heq]
  · obtain ⟨m, hm⟩ := hfork heq
    refine ⟨max n m, ?_⟩
    rw [onNewHead_eq hget, run_mono hn (le_max_left n m)]
    dsimp only
    rw [if_neg heq]
    exact run_mono hm (le_max_right n m)

/-- For every tree state that is closed under parents and every stored head that is not on the
canonical chain: `on_new_head` returns the chain to commit or the two chains of the reorganization
if and only if the new head is not lower than the canonical one. -/
theorem on_new_head_iff (s : TreeState) (ancestor : BlockNumHash) (hs : s.Closed ancestor)
    (hhead : s.HeadKnown) (newHead : B256) (b : ExecutedBlock)
    (hget : s.blocksByHash newHead = some b) (hoff : ¬ s.OnCanonicalChain newHead) :
    (∃ bound result, onNewHead bound s newHead = some result ∧ s.HeadSwitch newHead result) ↔
      s.currentCanonicalHead.number ≤ b.number := by
  obtain ⟨common, hs, hcommon⟩ := hs.exists_common hhead
  have hpos := number_pos hs hcommon hget hoff
  have hrankHead := hs.rank_head hhead
  have hrankNew : s.rank common newHead = b.number + 1 := rank_of_get hget
  obtain ⟨_, hwalk, newChain, currentHash, rfl, hchain, hrank⟩ :=
    walk_returns hs hcommon hhead hget hpos
  constructor
  · rintro ⟨bound, result, hres, hswitch⟩
    by_contra hlow
    -- the walk on the new chain starts at least two blocks below the canonical head
    have hgap : s.rank common currentHash + 2 ≤ s.rank common s.currentCanonicalHead.hash := by
      omega
    have hnone : ∃ bound, onNewHead bound s newHead = some none := by
      refine exists_onNewHead hget hwalk ?_ fun _ => fork_returns_none hs hcommon hgap
      intro heq
      rw [heq] at hgap
      omega
    obtain ⟨bound', hnone⟩ := hnone
    have hsame := onNewHead_mono hres (le_max_left _ bound')
    obtain rfl := some.inj (hsame.symm.trans (onNewHead_mono hnone (le_max_right _ _)))
    rcases hswitch with ⟨_, -, h⟩ | ⟨-, _, _, _, -, -, -, h⟩ <;> cases h
  · intro hle
    by_cases heq : currentHash = s.currentCanonicalHead.hash
    · obtain ⟨bound, hbound⟩ := exists_onNewHead hget hwalk (fun _ => rfl) fun hne => absurd heq hne
      exact ⟨bound, _, hbound, .inl ⟨_, heq ▸ hchain, rfl⟩⟩
    · -- the new head does not descend from the canonical head
      have hapart : ¬ ∃ new, s.Chain s.currentCanonicalHead.hash new newHead := by
        rintro ⟨new, hnew⟩
        have hlen := hnew.rank_eq hs.ranked
        by_cases hsame : b.number = s.currentCanonicalHead.number
        · have hhere := hnew.eq_of_rank_le hs.ranked (by omega)
          exact hoff ⟨[], hhere ▸ nil _⟩
        · exact heq (hchain.eq_of_rank_eq hs.ranked hnew (by omega))
      have hw : Walks.Inv s common newHead
          ⟨newChain.reverse, [], s.currentCanonicalHead.hash, currentHash⟩ := by
        refine ⟨hchain, nil _, ?_, ?_⟩
        · dsimp only
          omega
        · intro a bs bs' ha ha'
          refine ⟨?_, bs', ha'⟩
          -- a common ancestor is not above the canonical head, and not the new head
          have hlen := ha'.rank_eq hs.ranked
          have hne : a ≠ newHead := by
            rintro rfl
            exact hoff ⟨bs', ha'⟩
          have hlt : s.rank common a ≤ b.number := by
            by_contra hgt
            exact hne (ha.eq_of_rank_le hs.ranked (by omega))
          obtain ⟨cs, hcs⟩ := ha.of_rank_le hs.ranked hchain (by omega)
          exact ⟨cs, hcs⟩
      obtain ⟨r, hr, fork, new, old, hfork, hnew, hold, rfl⟩ := fork_returns hs hcommon hget hw
      obtain ⟨bound, hbound⟩ := exists_onNewHead hget hwalk (fun h => absurd h heq) fun _ => hr
      exact ⟨bound, _, hbound, .inr ⟨hapart, fork, new, old, hfork, hnew, hold, rfl⟩⟩

/-- Two branches of two blocks on a persisted block; the head is the last block of the first one. -/
def twoBranches : TreeState :=
  ((((new ⟨10, 0⟩).insertExecuted ⟨1, 0, 11⟩).insertExecuted ⟨2, 1, 12⟩).insertExecuted
    ⟨3, 0, 11⟩).insertExecuted ⟨4, 3, 12⟩ |>.setCanonicalHead ⟨12, 2⟩

lemma closed_twoBranches : twoBranches.Closed ⟨10, 0⟩ := by
  obtain ⟨h₁, hnone₁⟩ := (closed_new ⟨10, 0⟩).insertExecuted rfl ⟨1, 0, 11⟩ (by decide)
    (.inl ⟨rfl, rfl⟩)
  obtain ⟨h₂, hnone₂⟩ := h₁.insertExecuted hnone₁ ⟨2, 1, 12⟩ (by decide)
    (.inr ⟨⟨1, 0, 11⟩, rfl, rfl⟩)
  obtain ⟨h₃, hnone₃⟩ := h₂.insertExecuted hnone₂ ⟨3, 0, 11⟩ (by decide) (.inl ⟨rfl, rfl⟩)
  obtain ⟨h₄, -⟩ := h₃.insertExecuted hnone₃ ⟨4, 3, 12⟩ (by decide) (.inr ⟨⟨3, 0, 11⟩, rfl, rfl⟩)
  exact h₄.setCanonicalHead ⟨12, 2⟩

lemma headKnown_twoBranches : twoBranches.HeadKnown := .inl ⟨⟨2, 1, 12⟩, rfl, rfl⟩

lemma chains_twoBranches :
    twoBranches.Chain 0 [⟨1, 0, 11⟩, ⟨2, 1, 12⟩] 2 ∧ twoBranches.Chain 0 [⟨3, 0, 11⟩] 3 := by
  have h₁ : twoBranches.blocksByHash 1 = some ⟨1, 0, 11⟩ := rfl
  have h₂ : twoBranches.blocksByHash 2 = some ⟨2, 1, 12⟩ := rfl
  have h₃ : twoBranches.blocksByHash 3 = some ⟨3, 0, 11⟩ := rfl
  exact ⟨cons h₁ (single h₂), single h₃⟩

lemma off_canonical_twoBranches :
    ¬ twoBranches.OnCanonicalChain 3 ∧ ¬ twoBranches.OnCanonicalChain 4 := by
  have hranked := closed_twoBranches.ranked
  have h₂ : twoBranches.blocksByHash 2 = some ⟨2, 1, 12⟩ := rfl
  constructor
  · rintro ⟨bs, hbs⟩
    have heq := hbs.eq_of_rank_eq hranked (single h₂) rfl
    exact absurd heq (by decide)
  · rintro ⟨bs, hbs⟩
    have heq := hbs.eq_of_rank_le hranked (le_refl 13)
    exact absurd heq (by decide)

theorem on_new_head_iff_two_branches :
    ∃ bound result, onNewHead bound twoBranches 4 = some result ∧
      twoBranches.HeadSwitch 4 result :=
  (on_new_head_iff twoBranches ⟨10, 0⟩ closed_twoBranches headKnown_twoBranches 4 ⟨4, 3, 12⟩ rfl
    off_canonical_twoBranches.2).mpr (by decide)

/-- The first block of the second branch is below the canonical head: `on_new_head` returns
nothing, although the two chains from the fork point are stored. -/
theorem lower_head_not_found :
    twoBranches.Closed ⟨10, 0⟩ ∧ twoBranches.HeadKnown ∧
      twoBranches.blocksByHash 3 = some ⟨3, 0, 11⟩ ∧ ¬ twoBranches.OnCanonicalChain 3 ∧
      onNewHead 3 twoBranches 3 = some none ∧ ¬ twoBranches.HeadSwitch 3 none ∧
      twoBranches.HeadSwitch 3 (some (.reorg [⟨3, 0, 11⟩] [⟨2, 1, 12⟩, ⟨1, 0, 11⟩])) := by
  have hranked := closed_twoBranches.ranked
  refine ⟨closed_twoBranches, headKnown_twoBranches, rfl, off_canonical_twoBranches.1, by decide,
    ?_, .inr ⟨?_, 0, [⟨3, 0, 11⟩], [⟨1, 0, 11⟩, ⟨2, 1, 12⟩], ⟨⟨_, chains_twoBranches.2⟩,
      ⟨_, chains_twoBranches.1⟩, ?_⟩, chains_twoBranches.2, chains_twoBranches.1, rfl⟩⟩
  · rintro (⟨_, -, h⟩ | ⟨-, _, _, _, -, -, -, h⟩) <;> cases h
  · rintro ⟨new, hnew⟩
    have hlen := hnew.rank_eq hranked
    change 12 = 13 + new.length at hlen
    omega
  · intro a bs bs' ha ha'
    have hne : a ≠ 3 := by
      rintro rfl
      exact off_canonical_twoBranches.1 ⟨bs', ha'⟩
    have hget : twoBranches.blocksByHash 3 = some ⟨3, 0, 11⟩ := rfl
    obtain ⟨cs, hcs⟩ := ha.of_ne hne hget
    exact ⟨cs, hcs⟩

end TreeState

end FightNight.Reth
