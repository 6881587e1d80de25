import FightNight.Batcher.ChannelManager
import Mathlib.Data.List.Chain

/-!
# No block is lost

A block that the channel manager accepted should be in one place until it is fully submitted: in
the queue of blocks or in one channel.  The blocks of the channels, in the order of their
creation, followed by the queue, are then all blocks in the order in which they were accepted.

Four things break this order: a channel times out while a later one has blocks, or once more after
it has left the queue; the addition of blocks fails after some were added; and a channel with
blocks is dropped on shutdown.  `undisturbed` excludes them.
-/

namespace FightNight.Batcher

open Derive ChannelManager List

/-- A channel manager with all blocks it accepted, and the channels that were fully submitted. -/
structure Ledger (σ : Type) where
  manager : ChannelManager σ
  accepted : List Block
  submitted : List ℕ

/-- A block is the child of another one. -/
def Follows (parent block : Block) : Prop := block.parentHash = parent.hash

instance : DecidableRel Follows := fun parent block =>
  inferInstanceAs (Decidable (block.parentHash = parent.hash))

namespace Ledger

variable {σ : Type} (env : Setup σ)

def newLedger (l1OriginLastClosedChannel : BlockID) : Ledger σ :=
  ⟨newChannelManager l1OriginLastClosedChannel, [], []⟩

/-- The channel that leaves the queue with a confirmation because it is fully submitted. -/
def completed (id : TxID) (inclusionBlock : BlockID) (s : ChannelManager σ) : Option ℕ :=
  match s.channel (s.txChannels.lookup id) with
  | none => none
  | some (i, ch) =>
    let r := ch.txConfirmed env id inclusionBlock
    if r.2.1 ∧ ¬ r.1.isTimedOut env ∧ i ∈ s.channelQueue then some i else none

/-- The ledger after a call, if the call comes to an end. -/
def step (op : ManagerOp σ) (l : Ledger σ) : Option (Ledger σ) :=
  (l.manager.step env op).map fun s =>
    { manager := s
      accepted :=
        match op with
        | .addL2Block block => if (l.manager.addL2Block block).2 then l.accepted ++ [block] else l.accepted
        | _ => l.accepted
      submitted :=
        match op with
        | .txConfirmed id inclusionBlock =>
          l.submitted ++ (completed env id inclusionBlock l.manager).toList
        | _ => l.submitted }

def run : List (ManagerOp σ) → Ledger σ → Option (Ledger σ)
  | [], l => some l
  | op :: rest, l => (step env op l).bind (run rest)

/-- The queue is a chain, and every accepted block is in it, in one channel that is still tracked,
or in one that was fully submitted. -/
def Conserved (l : Ledger σ) : Prop :=
  l.manager.blocks.IsChain Follows ∧
    (l.manager.blocks ++ l.manager.channelQueue.flatMap l.manager.blocksOf ++
      l.submitted.flatMap l.manager.blocksOf).Perm l.accepted

/-- The calls that keep the order of the blocks: adding blocks gives no error other than that the
channel is full, unless with the first block; a channel that times out is still tracked, and no
later one that is tracked or submitted has blocks; and a channel that is dropped has no blocks. -/
def undisturbed (op : ManagerOp σ) (l : Ledger σ) : Bool :=
  match op with
  | .addL2Block _ => true
  | .txData _ fresh =>
    (l.manager.firstWithTxData env).isSome || l.manager.closed ||
      (l.manager.ensureChannelWithSpace env fresh).all fun s =>
        (s.channel s.currentChannel).all fun r =>
          (r.2.channelBuilder.addBlocks env s.blocks).2.2 = none ||
            (r.2.channelBuilder.addBlocks env s.blocks).2.1 = 0
  | .txConfirmed id inclusionBlock =>
    (l.manager.channel (l.manager.txChannels.lookup id)).all fun r =>
      !((r.2.txConfirmed env id inclusionBlock).2.1 &&
          (r.2.txConfirmed env id inclusionBlock).1.isTimedOut env) ||
        (l.manager.channelQueue.contains r.1 &&
          (l.manager.channelQueue ++ l.submitted).all fun j =>
            j ≤ r.1 || (l.manager.blocksOf j).isEmpty)
  | .txFailed id =>
    !l.manager.closed || (l.manager.channel (l.manager.txChannels.lookup id)).all fun r =>
      !(r.2.txFailed id).noneSubmitted || (l.manager.blocksOf r.1).isEmpty
  | .close =>
    l.manager.closed || l.manager.channelQueue.all fun i =>
      !(l.manager.channels[i]?.any Channel.noneSubmitted) || (l.manager.blocksOf i).isEmpty

/-- All calls of a run are such. -/
def undisturbedRun : List (ManagerOp σ) → Ledger σ → Bool
  | [], _ => true
  | op :: rest, l => undisturbed env op l && (step env op l).all (undisturbedRun rest)

/-! ## The order of the blocks -/

/-- What holds between calls: the blocks of the channels, in the order of their creation, and the queue are
the accepted blocks. -/
structure Inv (l : Ledger σ) : Prop where
  held : ∃ held : List ℕ, held.Pairwise (· < ·) ∧
    held.Perm (l.manager.channelQueue ++ l.submitted) ∧
    l.accepted = held.flatMap l.manager.blocksOf ++ l.manager.blocks
  lt_length : ∀ i ∈ l.manager.channelQueue ++ l.submitted, i < l.manager.channels.length
  current : ∀ i, l.manager.currentChannel = some i →
    i + 1 = l.manager.channels.length ∧ i ∈ l.manager.channelQueue
  chain : l.accepted.IsChain Follows
  tip : l.manager.tip = (l.accepted.getLast?.map Block.hash).getD zeroHash

lemma inv_newLedger (origin : BlockID) : Inv (newLedger origin : Ledger σ) :=
  ⟨⟨[], .nil, .refl _, rfl⟩, nofun, nofun, .nil, rfl⟩

variable {l : Ledger σ}

lemma Inv.conserved (h : Inv l) : l.Conserved := by
  obtain ⟨held, -, hperm, hacc⟩ := h.held
  refine ⟨?_, ?_⟩
  · have hchain := h.chain
    rw [hacc] at hchain
    exact hchain.right_of_append
  · rw [hacc, append_assoc, ← flatMap_append]
    exact perm_append_comm.trans ((hperm.symm.flatMap_right _).append_right _)

variable {s : ChannelManager σ} {i : ℕ} {fresh : Option σ} {id : TxID}

section

variable (h : Inv l)
include h

lemma Inv.keeps (hkeeps : l.manager.Keeps s) : Inv { l with manager := s } := by
  obtain ⟨held, hsorted, hperm, hacc⟩ := h.held
  refine ⟨⟨held, hsorted, ?_, ?_⟩, fun i hi => ?_, fun i hi => ?_, h.chain, hkeeps.tip_eq.trans h.tip⟩
  · rwa [hkeeps.queue_eq]
  · rwa [hkeeps.blocksOf_eq, hkeeps.blocks_eq]
  · rw [hkeeps.queue_eq] at hi
    rw [hkeeps.length_eq]
    exact h.lt_length i hi
  · rw [hkeeps.current_eq] at hi
    rw [hkeeps.length_eq, hkeeps.queue_eq]
    exact h.current i hi

lemma Inv.addL2Block (block : Block) :
    Inv { l with
      manager := (l.manager.addL2Block block).1
      accepted := if (l.manager.addL2Block block).2 then l.accepted ++ [block] else l.accepted } := by
  rw [ChannelManager.addL2Block]
  split
  case isTrue => exact h
  case isFalse hnot =>
    obtain ⟨held, hsorted, hperm, hacc⟩ := h.held
    refine ⟨⟨held, hsorted, hperm, ?_⟩, h.lt_length, h.current, ?_, ?_⟩
    · show l.accepted ++ [block] = held.flatMap l.manager.blocksOf ++ (l.manager.blocks ++ [block])
      rw [hacc, append_assoc]
    · refine h.chain.append (.singleton _) fun last hlast b hb => ?_
      cases hb
      -- there is a last block, and its hash is the tip
      have htip := h.tip
      rw [hlast] at htip
      have hne : l.manager.tip ≠ zeroHash := fun hzero =>
        last.hash_ne (congrArg Subtype.val (htip.symm.trans hzero))
      exact (not_not.mp fun hneq => hnot ⟨hne, hneq⟩).symm.trans htip
    · simp

lemma Inv.create (ch : Channel σ) (hblks : ch.channelBuilder.blocks = []) :
    Inv { l with manager := { l.manager with
      channels := l.manager.channels ++ [ch]
      currentChannel := some l.manager.channels.length
      channelQueue := l.manager.channelQueue ++ [l.manager.channels.length] } } := by
  obtain ⟨held, hsorted, hperm, hacc⟩ := h.held
  have hlt : ∀ i ∈ held, i < l.manager.channels.length := fun i hi =>
    h.lt_length i (hperm.subset hi)
  refine ⟨⟨held ++ [l.manager.channels.length], ?_, ?_, ?_⟩, fun i hi => ?_, fun i hi => ?_, h.chain, h.tip⟩
  · refine pairwise_append.mpr ⟨hsorted, pairwise_singleton _ _, fun i hi j hj => ?_⟩
    rw [mem_singleton.mp hj]
    exact hlt i hi
  · exact (hperm.append_right _).trans (by
      simp only [append_assoc]
      exact perm_append_comm.append_left _)
  · have hold : ∀ i ∈ held, ({ l.manager with
        channels := l.manager.channels ++ [ch]
        currentChannel := some l.manager.channels.length
        channelQueue := l.manager.channelQueue ++ [l.manager.channels.length] } :
          ChannelManager σ).blocksOf i = l.manager.blocksOf i := fun i hi => by
      rw [blocksOf, blocksOf, getElem?_append_left (hlt i hi)]
    rw [flatMap_append, flatMap_congr hold, flatMap_singleton, blocksOf,
      getElem?_concat_length, Option.map_some, Option.getD_some, hblks, append_nil]
    exact hacc
  · rw [length_append]
    simp only [mem_append, mem_singleton] at hi
    rcases hi with (hi | rfl) | hi
    · exact Nat.lt_succ_of_lt (h.lt_length i (mem_append_left _ hi))
    · exact Nat.lt_succ_self _
    · exact Nat.lt_succ_of_lt (h.lt_length i (mem_append_right _ hi))
  · cases hi
    refine ⟨?_, mem_append_right _ (mem_singleton_self _)⟩
    rw [length_append, length_singleton]

lemma Inv.ensureChannelWithSpace (hcall : l.manager.ensureChannelWithSpace env fresh = some s) :
    Inv { l with manager := s } := by
  rw [ChannelManager.ensureChannelWithSpace] at hcall
  split at hcall
  case isTrue => exact Option.some.inj hcall ▸ h
  case isFalse =>
    obtain ⟨co, -, rfl⟩ := Option.map_eq_some_iff.mp hcall
    exact h.create _ (ChannelBuilder.blocks_newChannelBuilder env co _)

end

lemma exists_split {held : List ℕ} (hsorted : held.Pairwise (· < ·)) (hi : i ∈ held) :
    ∃ before after, held = before ++ i :: after ∧ (∀ j ∈ before, j < i) ∧ ∀ j ∈ after, i < j := by
  obtain ⟨before, after, rfl⟩ := append_of_mem hi
  rw [pairwise_append, pairwise_cons] at hsorted
  exact ⟨before, after, rfl, fun j hj => hsorted.2.2 j hj i mem_cons_self, hsorted.2.1.1⟩

section

variable (h : Inv l)
include h

/-- The first blocks of the queue are moved to the current channel, which is the last one. -/
theorem Inv.addBlocks {ch : Channel σ}
    (hcur : l.manager.channel l.manager.currentChannel = some (i, ch)) {cb : ChannelBuilder σ}
    {n : ℕ} (hblks : cb.blocks = ch.channelBuilder.blocks ++ l.manager.blocks.take n) :
    Inv { l with manager := { l.manager.setChannel i { ch with channelBuilder := cb } with
      blocks := l.manager.blocks.drop n } } := by
  obtain ⟨held, hsorted, hperm, hacc⟩ := h.held
  have hi := lt_length_of_channel hcur
  obtain ⟨hlast, hqueue⟩ := h.current i (channel_eq_some.mp hcur).1
  have hmem : i ∈ held := hperm.symm.subset (mem_append_left _ hqueue)
  obtain ⟨before, after, rfl, hpre, hafter⟩ := exists_split hsorted hmem
  have hnil : after = [] := by
    refine eq_nil_iff_forall_not_mem.mpr fun j hj => ?_
    have hlt := h.lt_length j (hperm.subset (mem_append_right _ (mem_cons_of_mem i hj)))
    have := hafter j hj
    omega
  subst hnil
  refine ⟨⟨before ++ [i], hsorted, hperm, ?_⟩, ?_, ?_, h.chain, h.tip⟩
  · have hsame : ∀ j ∈ before, (l.manager.setChannel i { ch with channelBuilder := cb }).blocksOf j =
        l.manager.blocksOf j := fun j hj => by
      rw [blocksOf_setChannel hi, if_neg (ne_of_gt (hpre j hj))]
    show _ = (before ++ [i]).flatMap
      (l.manager.setChannel i { ch with channelBuilder := cb }).blocksOf ++ l.manager.blocks.drop n
    rw [hacc, flatMap_append, flatMap_append, flatMap_congr hsame, flatMap_singleton,
      flatMap_singleton, blocksOf_setChannel hi, if_pos rfl, hblks, blocksOf_of_channel hcur]
    simp only [append_assoc, take_append_drop]
  · intro j hj
    show j < (l.manager.channels.set i _).length
    rw [length_set]
    exact h.lt_length j hj
  · intro j hj
    show j + 1 = (l.manager.channels.set i _).length ∧ _
    rw [length_set]
    exact h.current j hj

lemma Inv.processBlocks {err : Option AddBlockError}
    (hcall : l.manager.processBlocks env = (s, err))
    (hcond : (l.manager.channel l.manager.currentChannel).all (fun r =>
      (r.2.channelBuilder.addBlocks env l.manager.blocks).2.2 =
      none || (r.2.channelBuilder.addBlocks env l.manager.blocks).2.1 = 0) = true) :
    Inv { l with manager := s } := by
  cases hcur : l.manager.channel l.manager.currentChannel with
  | none =>
    rw [ChannelManager.processBlocks, hcur] at hcall
    exact (Prod.mk.inj hcall).1 ▸ h
  | some r =>
    obtain ⟨i, ch⟩ := r
    have hadds := ChannelBuilder.adds_addBlocks env l.manager.blocks ch.channelBuilder
    rw [hcur] at hcond
    rw [ChannelManager.processBlocks, hcur] at hcall
    rcases hadd : ch.channelBuilder.addBlocks env l.manager.blocks with ⟨cb, n, res⟩
    simp only [Option.all_some, hadd] at hcond hcall hadds
    cases res with
    | none =>
      cases hcall
      exact h.addBlocks hcur hadds.blocks_eq
    | some e =>
      cases hcall
      -- the error came with the first block
      obtain rfl : n = 0 := by simpa using hcond
      exact h.addBlocks hcur hadds.blocks_eq

lemma Inv.txData {l1Head : UInt64} {r : ChannelManager σ × Except TxDataError TxData}
    (hcall : l.manager.txData env l1Head fresh = some r)
    (hcond : undisturbed env (.txData l1Head fresh) l = true) : Inv { l with manager := r.1 } := by
  refine txData_keeps (P := fun s => Inv { l with manager := s }) h
    (fun s ref hs => hs.keeps (keeps_nextTxData env ref s)) (fun hfirst hcl s₁ hens => ?_)
    (fun s hs => hs.keeps (keeps_registerL1Block l1Head s))
    (fun s s' err hout hs => hs.keeps (keeps_outputFrames hout)) hcall
  rw [undisturbed, hens] at hcond
  simp only [hfirst, hcl] at hcond
  exact (h.ensureChannelWithSpace env hens).processBlocks env rfl hcond

lemma Inv.current_remove {j : ℕ}
    (hj : (l.manager.removePendingChannel i).currentChannel = some j) :
    j + 1 = l.manager.channels.length ∧ j ∈ l.manager.channelQueue.erase i := by
  obtain ⟨hcur, hmem⟩ := current_removePendingChannel hj
  obtain ⟨hlast, hqueue⟩ := h.current j hcur
  exact ⟨hlast, hmem hqueue⟩

lemma Inv.submit (hi : i ∈ l.manager.channelQueue) :
    Inv { l with manager := l.manager.removePendingChannel i, submitted := l.submitted ++ [i] } := by
  obtain ⟨held, hsorted, hperm, hacc⟩ := h.held
  have hmoved : (l.manager.channelQueue.erase i ++ (l.submitted ++ [i])).Perm
      (l.manager.channelQueue ++ l.submitted) := by
    refine Perm.trans ?_ ((perm_cons_erase hi).symm.append_right _)
    rw [← append_assoc]
    exact perm_append_singleton i _
  refine ⟨⟨held, hsorted, hperm.trans hmoved.symm, hacc⟩, fun j hj => ?_,
    fun j hj => h.current_remove hj, h.chain, h.tip⟩
  exact h.lt_length j (hmoved.subset hj)

/-- A channel leaves the queue, and the blocks behind those of the earlier channels stay what they are. -/
theorem Inv.leave (hi : i ∈ l.manager.channelQueue) {blocks : List Block}
    (hblks : ∀ after : List ℕ, (∀ j ∈ after, j ∈ l.manager.channelQueue ++ l.submitted ∧
      i < j) → l.manager.blocksOf i ++ (after.flatMap l.manager.blocksOf ++ l.manager.blocks) =
      after.flatMap l.manager.blocksOf ++ blocks) :
    Inv { l with manager := { l.manager.removePendingChannel i with blocks := blocks } } := by
  obtain ⟨held, hsorted, hperm, hacc⟩ := h.held
  have hmem : i ∈ held := hperm.symm.subset (mem_append_left _ hi)
  have hsub : (l.manager.channelQueue.erase i ++ l.submitted) ⊆ l.manager.channelQueue ++ l.submitted :=
    (erase_sublist.append_right _).subset
  refine ⟨⟨held.erase i, hsorted.sublist erase_sublist, ?_, ?_⟩,
    fun j hj => h.lt_length j (hsub hj), fun j hj => h.current_remove hj, h.chain, h.tip⟩
  · exact erase_append_left _ hi ▸ hperm.erase i
  · obtain ⟨before, after, rfl, hpre, hafter⟩ := exists_split hsorted hmem
    have hmoved := hblks after fun j hj =>
      ⟨hperm.subset (mem_append_right _ (mem_cons_of_mem i hj)), hafter j hj⟩
    have hnot : i ∉ before := fun hc => lt_irrefl i (hpre i hc)
    show _ = ((before ++ i :: after).erase i).flatMap l.manager.blocksOf ++ blocks
    rw [hacc, erase_append_right _ hnot, erase_cons_head, flatMap_append, flatMap_append,
      flatMap_cons, append_assoc, append_assoc, append_assoc, hmoved]

lemma Inv.giveBack (hi : i ∈ l.manager.channelQueue)
    (hlater : ∀ j ∈ l.manager.channelQueue ++ l.submitted, i < j → l.manager.blocksOf j = []) :
    Inv { l with manager := { l.manager.removePendingChannel i with
      blocks := l.manager.blocksOf i ++ l.manager.blocks } } := by
  refine h.leave hi fun after hafter => ?_
  have hempty : after.flatMap l.manager.blocksOf = [] :=
    flatMap_eq_nil_iff.mpr fun j hj => hlater j (hafter j hj).1 (hafter j hj).2
  rw [hempty]
  rfl

lemma Inv.removePendingChannel_eq (hi : i ∉ l.manager.channelQueue) :
    l.manager.removePendingChannel i = l.manager := by
  have hcur : l.manager.currentChannel ≠ some i := fun hc => hi (h.current i hc).2
  rw [removePendingChannel, if_neg hcur, erase_of_not_mem hi]

lemma Inv.drop (hblks : l.manager.blocksOf i = []) :
    Inv { l with manager := l.manager.removePendingChannel i } := by
  by_cases hi : i ∈ l.manager.channelQueue
  · exact h.leave hi fun after _ => by rw [hblks, nil_append]
  · rwa [h.removePendingChannel_eq hi]

lemma Inv.txConfirmed {inclusionBlock : BlockID}
    (hcond : undisturbed env (.txConfirmed id inclusionBlock) l = true) :
    Inv { l with
      manager := l.manager.txConfirmed env id inclusionBlock
      submitted := l.submitted ++ (completed env id inclusionBlock l.manager).toList } := by
  rw [undisturbed] at hcond
  cases hchan : l.manager.channel (l.manager.txChannels.lookup id) with
  | none =>
    rwa [ChannelManager.txConfirmed, completed, hchan, Option.toList_none, append_nil]
  | some r =>
    obtain ⟨i, ch⟩ := r
    obtain ⟨hsame, hback⟩ := Channel.txConfirmed_blocks env id inclusionBlock ch
    rcases hconf : ch.txConfirmed env id inclusionBlock with ⟨ch', done, blocks⟩
    simp only [hchan, Option.all_some, hconf] at hcond hsame hback
    rw [ChannelManager.txConfirmed, completed, hchan]
    simp only [hconf]
    -- the report itself does not move blocks
    set s₁ := { l.manager with txChannels := l.manager.txChannels.erase id }.setChannel i ch' with hs₁
    have hkeeps : l.manager.Keeps s₁ := by
      have hset := keeps_setChannel hchan hsame
      exact ⟨hset.length_eq, hset.blocksOf_eq, rfl, rfl, rfl, rfl⟩
    have h₁ := h.keeps hkeeps
    cases done with
    | false =>
      obtain rfl : blocks = [] := hback
      rw [if_neg Bool.false_ne_true, if_neg fun hc => Bool.false_ne_true hc.1, Option.toList_none,
        append_nil]
      exact h₁
    | true =>
      rw [if_pos rfl]
      cases htimed : ch'.isTimedOut env with
      | true =>
        rw [htimed, if_pos ⟨rfl, rfl⟩] at hback
        simp only [htimed, Bool.and_self, Bool.not_true, Bool.false_or, Bool.and_eq_true,
          contains_iff_mem, all_eq_true, Bool.or_eq_true, decide_eq_true_eq,
          List.isEmpty_iff] at hcond
        obtain ⟨htrk, hlater⟩ := hcond
        rw [if_neg fun hc => hc.2.1 rfl, Option.toList_none, append_nil]
        have hgive := h₁.giveBack htrk fun j hj hlt => by
          rw [hkeeps.blocksOf_eq]
          exact (hlater j hj).resolve_left (not_le_of_gt hlt)
        have hi : s₁.blocksOf i = blocks := by
          rw [hkeeps.blocksOf_eq, blocksOf_of_channel hchan, hback]
        rwa [← hi]
      | false =>
        rw [htimed, if_neg fun hc => Bool.false_ne_true hc.2] at hback
        subst hback
        by_cases htrk : i ∈ l.manager.channelQueue
        · rw [if_pos ⟨rfl, Bool.false_ne_true, htrk⟩]
          exact h₁.submit htrk
        · rw [if_neg fun hc => htrk hc.2.2, Option.toList_none, append_nil]
          have heq := h₁.removePendingChannel_eq htrk
          exact heq.symm ▸ h₁

lemma Inv.txFailed (hcond : undisturbed env (.txFailed id) l = true) :
    Inv { l with manager := l.manager.txFailed id } := by
  rw [undisturbed] at hcond
  cases hchan : l.manager.channel (l.manager.txChannels.lookup id) with
  | none =>
    rwa [ChannelManager.txFailed, hchan]
  | some r =>
    obtain ⟨i, ch⟩ := r
    rw [ChannelManager.txFailed]
    simp only [hchan, Option.all_some] at hcond ⊢
    set s₁ := { l.manager with txChannels := l.manager.txChannels.erase id }.setChannel i (ch.txFailed id)
      with hs₁
    have hkeeps : l.manager.Keeps s₁ := by
      have hblks : (ch.txFailed id).channelBuilder.blocks = ch.channelBuilder.blocks := by
        rw [Channel.txFailed]
        split <;> rfl
      have hset := keeps_setChannel hchan hblks
      exact ⟨hset.length_eq, hset.blocksOf_eq, rfl, rfl, rfl, rfl⟩
    have h₁ := h.keeps hkeeps
    split
    case isTrue hdrop =>
      obtain ⟨hcl, hnone⟩ := hdrop
      have hclosed' : l.manager.closed = true := hcl
      rw [hclosed', hnone] at hcond
      have hempty : l.manager.blocksOf i = [] := List.isEmpty_iff.mp hcond
      exact h₁.drop (hkeeps.blocksOf_eq ▸ hempty)
    case isFalse => exact h₁

end

lemma Inv.dropLoop (rounds k : ℕ) (array : List ℕ) (h : Inv l)
    (hdrop : ∀ i, i ∈ array ∨ i ∈ l.manager.channelQueue →
      l.manager.channels[i]?.any Channel.noneSubmitted = true → l.manager.blocksOf i = []) :
    Inv { l with manager := ChannelManager.dropLoop rounds k array l.manager } := by
  induction rounds generalizing k array l with
  | zero => exact h
  | succ rounds ih =>
    rw [dropLoop]
    split
    case h_1 => exact h
    case h_2 i hi =>
      split
      case isTrue hnone =>
        refine ih _ _ (h.drop (hdrop i (.inl (mem_of_getElem? hi)) hnone)) fun j hj => ?_
        refine hdrop j ?_
        rcases hj with hj | hj
        · rw [shift] at hj
          split at hj
          · rcases mem_append.mp hj with hj | hj
            · exact .inr (mem_of_mem_erase hj)
            · exact .inl (mem_of_mem_drop hj)
          · exact .inl hj
        · exact .inr (mem_of_mem_erase hj)
      case isFalse => exact ih _ _ h hdrop

lemma Inv.close (h : Inv l) {r : ChannelManager σ × Option CloseError}
    (hcall : l.manager.close env = some r) (hcond : undisturbed env .close l = true) :
    Inv { l with manager := r.1 } := by
  refine close_keeps (P := fun s => Inv { l with manager := s }) h (fun hnot => ?_)
    (fun s i ch hcur hs => ?_) (fun s s' err hout hs => hs.keeps (keeps_outputFrames hout)) hcall
  · rw [undisturbed] at hcond
    simp only [Bool.eq_false_iff.mpr hnot, Bool.false_or, all_eq_true, Bool.or_eq_true,
      List.isEmpty_iff] at hcond
    have hcl : Inv { l with manager := { l.manager with closed := true } } :=
      h.keeps ⟨rfl, rfl, rfl, rfl, rfl, rfl⟩
    refine dropLoop l.manager.channelQueue.length 0 l.manager.channelQueue hcl
      fun i hi hnone => (hcond i (hi.elim id id)).resolve_left fun hsome => ?_
    rw [show l.manager.channels[i]?.any Channel.noneSubmitted = true from hnone] at hsome
    cases hsome
  · exact hs.keeps (keeps_setChannel hcur (ChannelBuilder.same_close _).blocks_eq)

lemma Inv.step (h : Inv l) {op : ManagerOp σ} {l' : Ledger σ} (hstep : Ledger.step env op l = some l')
    (hcond : undisturbed env op l = true) : Inv l' := by
  obtain ⟨s, hcall, rfl⟩ := Option.map_eq_some_iff.mp hstep
  cases op with
  | addL2Block block => exact Option.some.inj hcall ▸ h.addL2Block block
  | txData l1Head fresh =>
    obtain ⟨r, hr, rfl⟩ := Option.map_eq_some_iff.mp hcall
    exact h.txData env hr hcond
  | txConfirmed id inclusionBlock => exact Option.some.inj hcall ▸ h.txConfirmed env hcond
  | txFailed id => exact Option.some.inj hcall ▸ h.txFailed env hcond
  | close =>
    obtain ⟨r, hr, rfl⟩ := Option.map_eq_some_iff.mp hcall
    exact h.close env hr hcond

lemma Inv.run (h : Inv l) {ops : List (ManagerOp σ)} {l' : Ledger σ}
    (hrun : Ledger.run env ops l = some l') (hcond : undisturbedRun env ops l = true) : Inv l' := by
  induction ops generalizing l with
  | nil => exact Option.some.inj hrun ▸ h
  | cons op rest ih =>
    obtain ⟨l₁, hstep, hrest⟩ := Option.bind_eq_some_iff.mp hrun
    rw [undisturbedRun, hstep, Bool.and_eq_true] at hcond
    exact ih (h.step env hstep hcond.1) hrest hcond.2

/-- In every run whose calls are undisturbed, the queue is a chain, and every accepted block is in
it, in one channel that is still tracked, or in one that was fully submitted. -/
theorem blocks_conserved (origin : BlockID) (ops : List (ManagerOp σ))
    (hrun : run env ops (newLedger origin) = some l)
    (hcond : undisturbedRun env ops (newLedger origin) = true) : l.Conserved :=
  ((inv_newLedger origin).run env hrun hcond).conserved

/-! ## Channels that time out -/

/-- The frames of a channel are confirmed too far apart, and its block is sent again with the next one. -/
def sentAgain : List (ManagerOp (SingularChannelOut Unit)) :=
  [.addL2Block (numberedBlock 0), .txData 1 (some (numberedChannel 1)), .txData 1 none,
    .addL2Block (numberedBlock 1),
    .txConfirmed (singleID 1 0) ⟨zeroHash, 1⟩, .txConfirmed (singleID 1 1) ⟨zeroHash, 20⟩,
    .txData 2 (some (numberedChannel 2)), .txFailed (singleID 2 0), .txData 2 none, .txData 2 none,
    .txData 2 none, .txData 2 none, .txData 2 none,
    .txConfirmed (singleID 2 0) ⟨zeroHash, 21⟩, .txConfirmed (singleID 2 1) ⟨zeroHash, 21⟩,
    .txConfirmed (singleID 2 2) ⟨zeroHash, 22⟩, .txConfirmed (singleID 2 3) ⟨zeroHash, 22⟩,
    .txConfirmed (singleID 2 4) ⟨zeroHash, 22⟩, .addL2Block (numberedBlock 2), .close]

theorem blocks_conserved_sent_again :
    ∃ l, run (Traced.storingSetup (shortConfig 60)) sentAgain (newLedger ⟨zeroHash, 0⟩) = some l ∧
      l.accepted = [numberedBlock 0, numberedBlock 1, numberedBlock 2] ∧
      l.manager.blocks = [numberedBlock 2] ∧ l.submitted = [1] ∧ l.Conserved := by
  have heval : (run (Traced.storingSetup (shortConfig 60)) sentAgain (newLedger ⟨zeroHash, 0⟩)).map
      (fun l => (l.accepted, l.manager.blocks, l.submitted)) =
      some ([numberedBlock 0, numberedBlock 1, numberedBlock 2], [numberedBlock 2], [1]) := by
    decide +kernel
  obtain ⟨l, hrun, heq⟩ := Option.map_eq_some_iff.mp heval
  obtain ⟨hacc, heq⟩ := Prod.mk.inj heq
  obtain ⟨hblks, hsub⟩ := Prod.mk.inj heq
  exact ⟨l, hrun, hacc, hblks, hsub,
    blocks_conserved (Traced.storingSetup (shortConfig 60)) ⟨zeroHash, 0⟩ sentAgain hrun (by decide +kernel)⟩

/-- Two blocks are sent in a channel each, and the frames of the first one are confirmed too far apart. -/
def farApart : List (ManagerOp (SingularChannelOut Unit)) :=
  [.addL2Block (numberedBlock 0), .txData 1 (some (numberedChannel 1)), .txData 1 none, .txData 1 none,
    .addL2Block (numberedBlock 1), .txData 2 (some (numberedChannel 2)),
    .addL2Block (numberedBlock 2),
    .txConfirmed (singleID 1 0) ⟨zeroHash, 1⟩, .txConfirmed (singleID 1 1) ⟨zeroHash, 20⟩]

/-- The first block is put back in front of the third one, while the second one is in a channel. -/
theorem blocks_out_of_order :
    (shortConfig 60).check = none ∧
      ∃ l, run (Traced.storingSetup (shortConfig 60)) farApart (newLedger ⟨zeroHash, 0⟩) = some l ∧
        l.accepted = [numberedBlock 0, numberedBlock 1, numberedBlock 2] ∧
        l.manager.blocks = [numberedBlock 0, numberedBlock 2] ∧ ¬ l.Conserved := by
  have heval : (run (Traced.storingSetup (shortConfig 60)) farApart (newLedger ⟨zeroHash, 0⟩)).map
      (fun l => (l.accepted, l.manager.blocks)) =
      some ([numberedBlock 0, numberedBlock 1, numberedBlock 2], [numberedBlock 0, numberedBlock 2]) := by
    decide
  obtain ⟨l, hrun, heq⟩ := Option.map_eq_some_iff.mp heval
  obtain ⟨hacc, hblks⟩ := Prod.mk.inj heq
  refine ⟨by decide, l, hrun, hacc, hblks, fun h => ?_⟩
  have hchain := h.1
  rw [hblks, isChain_cons_cons] at hchain
  exact absurd hchain.1 (by decide)

end Ledger

end FightNight.Batcher
