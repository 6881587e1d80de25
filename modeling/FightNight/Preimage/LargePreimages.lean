import FightNight.Preimage.Squeeze

/-!
# Large preimages

A squeezed proposal makes one part of its preimage available: 32 bytes of the length, in 8 bytes,
followed by the preimage, from the offset `partOffset` on.  The part is taken from the input when
the block that contains it is added, and the digest from the last leaf when the proposal is
squeezed.

In between, `initLPP` can be called again.  It overwrites the offset and the claimed size and
keeps everything else, so that a part is served at an offset from which it was not taken, or with
a length that the preimage does not have (`reinitialized_squeezed`).  When `initLPP` leaves
proposals alone that have input already, what is served is right (`large_preimages_sound`).
-/

namespace FightNight.Preimage

open FightNight.Except MerkleTree Run Oracle
open Function (update_of_ne update_self)
open List hiding getElem?_eq_some_iff

variable {env : OracleEnv} {s s' : Oracle} {key : ProposalKey} {parts : List InputData}

/-! ## Parts of a preimage -/

/-- A stored part has the 32 bytes from an offset on, as far as there are any. -/
def HoldsPart (part : Hash) (data : Bytes) (offset : ℕ) : Prop :=
  (data.drop offset).take 32 <+: part.1

lemma take_prefix_ofBytes {xs ys : Bytes} (h : xs <+: ys) : xs.take 32 <+: (Hash.ofBytes ys).1 := by
  have htake : xs.take 32 <+: ys.take 32 := h.take 32
  exact htake.trans (prefix_append _ _)

variable {before : List (Tx × OracleCall)} {c : Tx × OracleCall} {stateMatrix : StateSnapshot}
  {args : LeavesArgs} {post pre : ProvedLeaf} {blocks : List ClaimedBlock} {tx : Tx} {i offset : ℕ}
  {size : UInt32} {uuid : Fin (2 ^ 256)} {b : ClaimedBlock} {done : Bytes}

lemma holdsPart_head (size : ℕ) (input tail : Bytes) (h : offset < 8) :
    HoldsPart (Hash.ofBytes ((beBytes 8 size ++
      (calldataload (input ++ tail) 0).1).drop offset)) (beBytes 8 size ++ input)
      offset := by
  have hcut : ((beBytes 8 size ++ input).drop offset).take 32 =
      (((beBytes 8 size ++ input).take 40).drop offset).take 32 := by
    rw [drop_take, take_take, min_eq_left (by omega)]
  have hword : (beBytes 8 size ++ input).take 40 <+:
      beBytes 8 size ++ (calldataload (input ++ tail) 0).1 := by
    have hsplit : (beBytes 8 size ++ input).take 40 = beBytes 8 size ++ input.take 32 := by
      simp [take_append, length_beBytes]
    rw [hsplit, prefix_append_right_inj]
    exact take_prefix_ofBytes (prefix_append input tail)
  rw [HoldsPart, hcut]
  exact take_prefix_ofBytes (hword.drop offset)

lemma holdsPart_input (size : ℕ) (done input tail : Bytes) (h : done.length + 8 ≤ offset) :
    HoldsPart (calldataload (input ++ tail) (offset - 8 - done.length))
      (beBytes 8 size ++ (done ++ input)) offset := by
  have hdrop : (beBytes 8 size ++ (done ++ input)).drop offset =
      input.drop (offset - 8 - done.length) := by
    grind [append_assoc, drop_append, drop_of_length_le, nil_append, length_append, length_beBytes, Nat.sub_sub]
  rw [HoldsPart, hdrop]
  exact take_prefix_ofBytes ((prefix_append input tail).drop _)

lemma HoldsPart.extend {part : Hash} {size : ℕ} (input : Bytes)
    (h : HoldsPart part (beBytes 8 size ++ done) offset) (hroom : offset + 32 ≤ done.length + 8) :
    HoldsPart part (beBytes 8 size ++ (done ++ input)) offset := by
  have hsame : ((beBytes 8 size ++ (done ++ input)).drop offset).take 32 =
      ((beBytes 8 size ++ done).drop offset).take 32 := by
    rw [← append_assoc, drop_append_of_le_length, take_append_of_le_length]
    · rw [length_drop, length_append, length_beBytes]
      omega
    · rw [length_append]
      omega
  rwa [HoldsPart, hsame]

/-! ## What is stored for a proposal -/

/-- A call leaves the part of a proposal and the fields that belong to it as they are. -/
structure KeepsPart (key : ProposalKey) (s s' : Oracle) : Prop where
  part : s'.proposalParts key = s.proposalParts key
  partOffset : (s'.proposalMetadata key).partOffset = (s.proposalMetadata key).partOffset
  claimedSize : (s'.proposalMetadata key).claimedSize = (s.proposalMetadata key).claimedSize
  bytesProcessed :
    (s'.proposalMetadata key).bytesProcessed = (s.proposalMetadata key).bytesProcessed
  timestamp : (s'.proposalMetadata key).timestamp = (s.proposalMetadata key).timestamp

/-- What `addLeavesLPP` does with the part of a proposal. -/
structure StoresPart (key : ProposalKey) (args : LeavesArgs) (s s' : Oracle) : Prop where
  initialized : (s.proposalMetadata key).claimedSize ≠ 0
  unfinished : (s.proposalMetadata key).timestamp = 0
  partOffset : (s'.proposalMetadata key).partOffset = (s.proposalMetadata key).partOffset
  claimedSize : (s'.proposalMetadata key).claimedSize = (s.proposalMetadata key).claimedSize
  timestamp : (s'.proposalMetadata key).timestamp = 0 ↔ args.finalize = false
  bytesProcessed : (s'.proposalMetadata key).bytesProcessed =
    UInt32.ofNat (args.input.length + (s.proposalMetadata key).bytesProcessed.toNat)
  complete : args.finalize = true →
    (s'.proposalMetadata key).bytesProcessed = (s'.proposalMetadata key).claimedSize
  part : ∃ part, extractPreimagePart args (s.proposalMetadata key) = .ok part ∧
    s'.proposalParts key = part.getD (s.proposalParts key)
  others : ∀ other, other ≠ key → KeepsPart other s s'

lemma addLeavesLPP_stores (h : addLeavesLPP env tx uuid args s = .ok s') :
    StoresPart (tx.sender, uuid) args s s' := by
  simp only [addLeavesLPP, bind_eq_ok, revertIf_eq_ok, Checked.add_eq_ok, pure_eq_ok] at h
  obtain ⟨-, -, -, -, -, hsize, -, htime, -, -, part, hpart, -, -, -, -, _, ⟨-, rfl⟩, -, hfin,
    rfl⟩ := h
  constructor
  · exact hsize
  · exact of_not_not htime
  · simp only [update_self]
    split <;> rfl
  · simp only [update_self]
    split <;> rfl
  · simp only [update_self]
    split
    · rename_i hfin
      rw [hfin]
      exact ⟨fun hzero => absurd hzero tx.timestamp_ne_zero, fun hfalse => by cases hfalse⟩
    · rename_i hopen
      exact ⟨fun _ => Bool.eq_false_iff.mpr hopen, fun _ => of_not_not htime⟩
  · simp only [update_self]
    split <;> rfl
  · grind
  · refine ⟨part, hpart, ?_⟩
    cases part with
    | none => rfl
    | some part => exact update_self ..
  · intro other hother
    constructor
    · cases part with
      | none => rfl
      | some part => exact update_of_ne hother ..
    all_goals simp only [update_of_ne hother]

/-- The part of a proposal is that of its input; when the input is not complete, all 32 bytes of the
part are in it. -/
structure Stored (parts : List InputData) (key : ProposalKey) (s : Oracle) : Prop where
  bytesProcessed : (s.proposalMetadata key).bytesProcessed.toNat = (inputOf parts).length
  part : inputOf parts ≠ [] →
    (s.proposalMetadata key).partOffset.toNat < (inputOf parts).length + 8 →
    HoldsPart (s.proposalParts key)
      (beBytes 8 (s.proposalMetadata key).claimedSize.toNat ++ inputOf parts)
      (s.proposalMetadata key).partOffset.toNat
  room : inputOf parts ≠ [] → (s.proposalMetadata key).timestamp = 0 →
    (s.proposalMetadata key).partOffset.toNat < (inputOf parts).length + 8 →
    (s.proposalMetadata key).partOffset.toNat + 32 ≤ (inputOf parts).length + 8
  offset : (s.proposalMetadata key).claimedSize ≠ 0 →
    (s.proposalMetadata key).partOffset.toNat < (s.proposalMetadata key).claimedSize.toNat + 8
  complete : (s.proposalMetadata key).timestamp ≠ 0 → inputOf parts ≠ [] ∧
    (s.proposalMetadata key).claimedSize.toNat = (inputOf parts).length

lemma stored_deployed (key : ProposalKey) : Stored [] key .deployed :=
  ⟨rfl, fun hne => absurd rfl hne, fun hne => absurd rfl hne, fun hne => absurd rfl hne,
    fun hne => absurd rfl hne⟩

lemma Stored.keep (h : Stored parts key s) (hkeep : KeepsPart key s s') :
    Stored parts key s' := by
  constructor
  · rw [hkeep.bytesProcessed]
    exact h.bytesProcessed
  · rw [hkeep.part, hkeep.claimedSize, hkeep.partOffset]
    exact h.part
  · rw [hkeep.timestamp, hkeep.partOffset]
    exact h.room
  · rw [hkeep.claimedSize, hkeep.partOffset]
    exact h.offset
  · rw [hkeep.timestamp, hkeep.claimedSize]
    exact h.complete

/-- What `_extractPreimagePart` returns: the part when it begins in the length and there is no input
yet, or when it begins in the new input; unless the input is the last one, all of the part is in it.
-/
theorem extractPreimagePart_ok {metaData : LPPMetaData}
    (hdone : metaData.bytesProcessed.toNat = done.length) {part : Option Hash}
    (h : extractPreimagePart args metaData = .ok part) :
    let offset := metaData.partOffset.toNat
    let data := beBytes 8 metaData.claimedSize.toNat ++ (done ++ args.input)
    (∃ p, part = some p ∧ HoldsPart p data offset ∧ (offset < 8 ∧ done = [] ∨
      done.length + 8 ≤ offset ∧
        (args.finalize = false → offset + 32 < done.length + args.input.length + 8))) ∨
    (part = none ∧ (offset < 8 → done ≠ []) ∧
      (done.length + 8 ≤ offset → done.length + args.input.length + 8 ≤ offset)) := by
  intro offset data
  unfold extractPreimagePart at h
  rw [hdone] at h
  dsimp only at h
  split at h
  · rename_i hhead
    obtain ⟨hoff, hempty⟩ := hhead
    have hnil : done = [] := length_eq_zero_iff.mp hempty
    have hpart := holdsPart_head metaData.claimedSize.toNat args.input args.tail hoff
    refine Or.inl ⟨_, (Except.ok.inj h).symm, ?_, Or.inl ⟨hoff, hnil⟩⟩
    change HoldsPart _ (beBytes 8 metaData.claimedSize.toNat ++ (done ++ args.input)) _
    rwa [hnil]
  · rename_i hhead
    split at h
    · simp only [bind_eq_ok, revertIf_eq_ok, pure_eq_ok] at h
      obtain ⟨-, hroom, rfl⟩ := h
      have hle : done.length + 8 ≤ offset := by omega
      refine Or.inl ⟨_, rfl, holdsPart_input _ _ _ _ hle, Or.inr ⟨hle, ?_⟩⟩
      intro hopen
      have hlt : ¬args.input.length ≤ offset - 8 - done.length + 32 := fun hle => hroom ⟨hle, hopen⟩
      omega
    · rename_i houtside
      refine Or.inr ⟨(Except.ok.inj h).symm, ?_, ?_⟩
      · intro hoff hnil
        exact hhead ⟨hoff, by rw [hnil]; rfl⟩
      · intro hle
        by_contra hlt
        exact houtside ⟨by omega, by omega, by omega⟩

lemma inputOf_append (parts : List InputData) (part : InputData) :
    inputOf (parts ++ [part]) = inputOf parts ++ part.input := by
  rw [inputOf, flatMap_append, flatMap_singleton]
  rfl

lemma Stored.add (h : Stored parts key s) (hsto : StoresPart key args s s')
    (hsize : (inputOf parts).length + args.input.length < 2 ^ 32)
    (hblks : args.finalize = false → args.input = [] ∨ blockSize ≤ args.input.length) :
    Stored (parts ++ [⟨args.input, args.stateCommitments, args.finalize⟩]) key s' := by
  obtain ⟨part, hext, hpart⟩ := hsto.part
  have hcases := extractPreimagePart_ok h.bytesProcessed hext
  set at' := (s.proposalMetadata key).partOffset.toNat with hat
  have hbytes : (s'.proposalMetadata key).bytesProcessed.toNat =
      (inputOf parts ++ args.input).length := by
    rw [hsto.bytesProcessed, h.bytesProcessed, length_append, add_comm]
    exact UInt32.toNat_ofNat_of_lt' hsize
  have hholds : inputOf parts ++ args.input ≠ [] → at' < (inputOf parts ++ args.input).length + 8 →
      HoldsPart (s'.proposalParts key) (beBytes 8 (s.proposalMetadata key).claimedSize.toNat ++
        (inputOf parts ++ args.input)) at' := by
    intro _ hlt
    rw [length_append] at hlt
    rcases hcases with ⟨p, rfl, hp, -⟩ | ⟨rfl, hhead, htail⟩
    · rwa [hpart]
    · -- The part is in the input that was there before.
      have hpre : inputOf parts ≠ [] ∧ at' < (inputOf parts).length + 8 := by
        by_cases hoff : at' < 8
        · exact ⟨hhead hoff, by omega⟩
        · refine ⟨?_, by omega⟩
          intro hnil
          rw [hnil, length_nil] at htail hlt
          omega
      rw [hpart]
      exact (h.part hpre.1 hpre.2).extend _ (h.room hpre.1 hsto.unfinished hpre.2)
  have hroom : inputOf parts ++ args.input ≠ [] → args.finalize = false →
      at' < (inputOf parts ++ args.input).length + 8 →
      at' + 32 ≤ (inputOf parts ++ args.input).length + 8 := by
    intro hne hopen hlt
    rw [length_append] at hlt ⊢
    rcases hcases with ⟨p, -, -, ⟨hoff, hnil⟩ | ⟨-, hinside⟩⟩ | ⟨-, hhead, htail⟩
    · rw [hnil] at hne
      have hfull : blockSize ≤ args.input.length := (hblks hopen).resolve_left hne
      have hblock : blockSize = 136 := rfl
      omega
    · have := hinside hopen
      omega
    · by_cases hold : inputOf parts = []
      · rw [hold, length_nil] at htail hlt
        have hoff : ¬at' < 8 := fun hlt => hhead hlt hold
        omega
      · have := h.room hold hsto.unfinished (by omega)
        omega
  constructor
  · rwa [inputOf_append]
  · rwa [inputOf_append, hsto.partOffset, hsto.claimedSize]
  · rw [inputOf_append, hsto.partOffset]
    intro hne htime
    exact hroom hne (hsto.timestamp.mp htime)
  · rw [hsto.claimedSize, hsto.partOffset]
    exact h.offset
  · intro htime
    rw [inputOf_append]
    have hfin : args.finalize = true := by
      rw [← Bool.not_eq_false]
      exact fun hfalse => htime (hsto.timestamp.mpr hfalse)
    have hsame : (s'.proposalMetadata key).claimedSize.toNat =
        (inputOf parts ++ args.input).length := by
      rwa [← hsto.complete hfin]
    refine ⟨?_, hsame⟩
    intro hnil
    rw [hnil, hsto.claimedSize] at hsame
    exact hsto.initialized (UInt32.toNat_inj.mp hsame)

/-! ## Runs -/

lemma InputData.WellSized.length_le {part : InputData} (h : part.WellSized) :
    part.input.length ≤ part.commitments.length * blockSize := by
  rw [WellSized, padded] at h
  split at h
  · rw [length_padBytes] at h
    rw [← h, add_mul]
    exact le_of_lt (Nat.lt_div_mul_add (by decide))
  · exact le_of_eq h

lemma Recorded.length_inputOf (h : Recorded parts key s) :
    (inputOf parts).length ≤ maxLeafCount * blockSize := by
  have hle : ∀ parts : List InputData, (∀ part ∈ parts, part.WellSized) →
      (inputOf parts).length ≤ (blocksOf parts).length * blockSize := by
    intro parts hsized
    induction parts with
    | nil => exact Nat.zero_le _
    | cons part parts ih =>
      have hrest := ih fun p hp => hsized p (mem_cons_of_mem _ hp)
      have hpart := (hsized part mem_cons_self).length_le
      rw [inputOf, blocksOf, flatMap_cons, flatMap_cons, length_append,
        length_append, length_blocks, add_mul]
      exact add_le_add hpart hrest
  exact le_trans (hle parts h.sized) (Nat.mul_le_mul_right _ h.bound)

/-- `initLPP` is called for a proposal without input, or changes nothing that belongs to the
input. -/
def KeepsInput : Tx × OracleCall → Oracle → Prop
  | (tx, .initLPP uuid partOffset claimedSize), s =>
    let metaData := s.proposalMetadata (tx.sender, uuid)
    metaData.bytesProcessed = 0 ∨
      (partOffset = metaData.partOffset ∧ claimedSize = metaData.claimedSize)
  | _, _ => True

instance KeepsInput.decidable : ∀ (c : Tx × OracleCall) (s : Oracle), Decidable (KeepsInput c s)
  | (tx, .initLPP uuid partOffset claimedSize), s =>
    inferInstanceAs (Decidable ((s.proposalMetadata (tx.sender, uuid)).bytesProcessed = 0 ∨
      (partOffset = (s.proposalMetadata (tx.sender, uuid)).partOffset ∧
        claimedSize = (s.proposalMetadata (tx.sender, uuid)).claimedSize)))
  | (_, .addLeavesLPP ..), _ => isTrue trivial
  | (_, .challengeLPP ..), _ => isTrue trivial
  | (_, .challengeFirstLPP ..), _ => isTrue trivial
  | (_, .squeezeLPP ..), _ => isTrue trivial

lemma keepsPart_of_counter {k : ProposalKey} (h : counter tx k s = .ok s')
    (key : ProposalKey) : KeepsPart key s s' := by
  obtain ⟨-, rfl⟩ := payoutBond_ok h
  by_cases hkey : key = k
  · subst hkey
    constructor <;> simp only [update_self]
  · constructor <;> simp only [update_of_ne hkey]

lemma Stored.initLPP (h : Stored parts key s) {partOffset claimedSize : UInt32}
    (hkeeps : KeepsInput (tx, .initLPP uuid partOffset claimedSize) s)
    (hexec : Oracle.initLPP env tx uuid partOffset claimedSize s = .ok s') :
    Stored parts key s' := by
  simp only [Oracle.initLPP, bind_eq_ok, revertIf_eq_ok, pure_eq_ok] at hexec
  obtain ⟨-, -, -, -, -, -, -, hoff, -, -, rfl⟩ := hexec
  by_cases hkey : key = (tx.sender, uuid)
  · subst hkey
    rcases hkeeps with hempty | ⟨rfl, rfl⟩
    · have hnil : inputOf parts = [] := by
        rw [← length_eq_zero_iff, ← h.bytesProcessed, hempty]
        rfl
      constructor <;> simp only [update_self]
      · exact h.bytesProcessed
      · exact fun hne => absurd hnil hne
      · exact fun hne => absurd hnil hne
      · exact fun _ => lt_of_not_ge hoff
      · exact fun hne => absurd hnil (h.complete hne).1
    · apply h.keep
      constructor <;> simp only [update_self]
  · apply h.keep
    constructor <;> simp only [update_of_ne hkey]

lemma Stored.call (hlib : env.lib.Faithful) (h : Stored (submissions key before) key s)
    (hrec : ∀ key, Recorded (submissions key before) key s) (hkeeps : KeepsInput c s)
    (hexec : exec env c s = .ok s') : Stored (submissions key (before ++ [c])) key s' := by
  rw [submissions_concat]
  obtain ⟨tx, call⟩ := c
  cases call with
  | initLPP uuid partOffset claimedSize =>
    exact (append_nil _).symm ▸ h.initLPP hkeeps hexec
  | addLeavesLPP uuid args =>
    have hsto := addLeavesLPP_stores hexec
    obtain ⟨hadds, -⟩ := addLeavesLPP_ok hlib hexec
    by_cases hkey : key = (tx.sender, uuid)
    · have hsub : submission key (tx, .addLeavesLPP uuid args) =
          some ⟨args.input, args.stateCommitments, args.finalize⟩ := if_pos hkey.symm
      rw [hsub]
      subst hkey
      have hafter := ((hrec _).add hadds).length_inputOf
      rw [inputOf_append, length_append] at hafter
      refine h.add hsto (lt_of_le_of_lt hafter (by decide)) ?_
      intro hopen
      have hsized := hadds.sized
      rw [InputData.WellSized, hopen] at hsized
      by_cases hzero : args.stateCommitments.length = 0
      · left
        rw [hzero] at hsized
        exact length_eq_zero_iff.mp hsized
      · right
        exact le_trans (Nat.le_mul_of_pos_left _ (pos_of_ne_zero hzero)) (le_of_eq hsized.symm)
    · have hsub : submission key (tx, .addLeavesLPP uuid args) = none := if_neg (Ne.symm hkey)
      rw [hsub]
      exact (append_nil _).symm ▸ h.keep (hsto.others key hkey)
  | challengeLPP k stateMatrix pre post =>
    exact (append_nil _).symm ▸ h.keep (keepsPart_of_counter (challengeLPP_counter hexec) key)
  | challengeFirstLPP k post =>
    exact (append_nil _).symm ▸ h.keep (keepsPart_of_counter (challengeFirstLPP_counter hexec) key)
  | squeezeLPP k stateMatrix pre post =>
    simp only [exec, squeezeLPP, bind_eq_ok] at hexec
    obtain ⟨-, -, -, -, _, -, -, -, -, -, _, -, -, -, _, -, -, -, _, -, hpay⟩ := hexec
    obtain ⟨-, rfl⟩ := payoutBond_ok hpay
    exact (append_nil _).symm ▸ h.keep ⟨rfl, rfl, rfl, rfl, rfl⟩

/-! ## Leaves that are not forged -/

/-- Two byte strings are not a collision of the hash function. -/
def NoCollision (x y : Bytes) : Prop := keccak256 x = keccak256 y → x = y

def leafBytes (input : Bytes) (index : ℕ) (commitment : Hash) : Bytes :=
  input ++ beBytes 32 index ++ commitment.1

def stateBytes (a : Lanes) : Bytes := a.flatMap fun x => beBytes 32 x.toNat

/-- A leaf and its proof contain no collision with the tree of some blocks: neither at one of the
nodes above the leaf nor at the leaf itself. -/
structure Unforged (blocks : List ClaimedBlock) (p : ProvedLeaf) : Prop where
  nodes : ∀ h < treeDepth,
    let x := climbPair hashTwo p.leaf.index p.proof p.leaf.hash h
    let y := childPair hashTwo (leafAt (leafHashes blocks)) p.leaf.index h
    NoCollision (x.1.1 ++ x.2.1) (y.1.1 ++ y.2.1)
  leaf : ∀ b, blocks[p.leaf.index]? = some b →
    NoCollision (leafBytes p.leaf.input p.leaf.index p.leaf.stateCommitment)
      (leafBytes b.1 p.leaf.index b.2)

lemma leafAt_leafHashes (h : blocks[i]? = some b) :
    leafAt (leafHashes blocks) i = hashLeaf b.1 i b.2 := by
  rw [leafAt, getD_eq_getElem?_getD, leafHashes, getElem?_mapIdx, h]
  rfl

lemma Recorded.leaf_eq (h : Recorded parts key s) {p : ProvedLeaf}
    (hver : Oracle.verify (s.getTreeRootLPP key) p = true)
    (hunforged : Unforged (blocksOf parts) p) (hb : (blocksOf parts)[p.leaf.index]? = some b) :
    p.leaf.input = b.1 ∧ p.leaf.stateCommitment = b.2 := by
  have hidx : p.leaf.index < 2 ^ treeDepth :=
    lt_of_lt_of_le (getElem?_eq_some_iff.mp hb).1 (le_trans h.bound (by decide))
  have hclimb := of_decide_eq_true hver
  rw [h.getTreeRootLPP, ← Nat.div_eq_of_lt hidx] at hclimb
  have hwidth : ∀ x y : Hash, x.1.length = y.1.length := fun x y => x.2.trans y.2.symm
  have hleaf : p.leaf.hash = leafAt (leafHashes (blocksOf parts)) p.leaf.index := by
    apply climb_sound hashTwo _ hclimb
    intro height hht heq
    obtain ⟨hleft, hright⟩ := append_inj (hunforged.nodes height hht heq) (hwidth _ _)
    exact Prod.ext (Subtype.ext hleft) (Subtype.ext hright)
  rw [leafAt_leafHashes hb] at hleaf
  obtain ⟨hinput, hcomm⟩ := append_inj' (hunforged.leaf b hb hleaf) (hwidth _ _)
  exact ⟨append_cancel_right hinput, Subtype.ext hcomm⟩

lemma stateBytes_inj {a b : Lanes} (hlen : a.length = b.length)
    (h : stateBytes a = stateBytes b) : a = b := by
  induction a generalizing b with
  | nil => exact (length_eq_zero_iff.mp hlen.symm).symm
  | cons x a ih =>
    cases b with
    | nil => cases hlen
    | cons y b =>
      obtain ⟨hhead, htail⟩ := append_inj h (by rw [length_beBytes, length_beBytes])
      have hword := congrArg leNat (reverse_injective hhead)
      have hbound : ∀ z : UInt64, z.toNat < 256 ^ 32 := fun z =>
        lt_trans z.toNat_lt (by decide)
      rw [leNat_leBytes_of_lt (hbound x), leNat_leBytes_of_lt (hbound y)] at hword
      rw [UInt64.toNat_inj.mp hword, ih (Nat.succ.inj hlen) htail]

/-! ## The digest -/

/-- What `LibKeccak.squeeze` is documented to do: it reads the digest from the state. -/
def LibKeccak.Squeezes (lib : LibKeccak) : Prop :=
  ∀ a, lib.squeeze a = Hash.ofBytes (copyOut a.1)

/-- What the arguments of `squeezeLPP` have to be free of: a forged leaf, and another state with the
commitment of the state before the last block. -/
structure Genuine (blocks : List ClaimedBlock) (stateMatrix : StateSnapshot)
    (pre post : ProvedLeaf) : Prop where
  pre : Unforged blocks pre
  post : Unforged blocks post
  state : NoCollision (stateBytes stateMatrix.1) (stateBytes (stateAfter blocks.dropLast))

lemma squeezeLPP_cases (h : Oracle.squeezeLPP env tx key stateMatrix pre post s = .ok s') :
    Oracle.verify (s.getTreeRootLPP key) pre = true ∧
      Oracle.verify (s.getTreeRootLPP key) post = true ∧
      stateCommitment stateMatrix.1 = pre.leaf.stateCommitment ∧
      pre.leaf.index + 2 = (s.proposalMetadata key).blocksProcessed.toNat ∧
      pre.leaf.index + 1 = post.leaf.index ∧
      ∃ a, env.lib.absorb stateMatrix post.leaf.input = .ok a ∧
        s' = (s.authorised key
          (digestKey (env.lib.squeeze (env.lib.permutation a)))).paid key := by
  simp only [squeezeLPP, checkLeaves, bind_eq_ok, revertIf_eq_ok,
    Checked.add_eq_ok, Checked.sub_eq_ok, not_not] at h
  obtain ⟨-, -, -, -, _, -, -, -, -, ⟨-, hver, hstate⟩, _, ⟨-, rfl⟩, -, hnext, _, ⟨hpos, rfl⟩, -,
    hlast, a, habs, hpay⟩ := h
  obtain ⟨-, rfl⟩ := payoutBond_ok hpay
  exact ⟨hver.1, hver.2, hstate, by omega, hnext, a, habs, rfl⟩

/-- The digest of a finished proposal with right commitments is that of its input. -/
theorem Recorded.squeezeLPP_digest (h : Recorded parts key s) (hlib : env.lib.Faithful)
    (hsqs : env.lib.Squeezes) (hfin : Finished parts)
    (htrue : commitmentsOf parts = trueCommitments (inputOf parts))
    (hgen : Genuine (blocksOf parts) stateMatrix pre post)
    (hexec : Oracle.squeezeLPP env tx key stateMatrix pre post s = .ok s') :
    s' = (s.authorised key (Oracle.digestKey (keccak256 (inputOf parts)))).paid key := by
  obtain ⟨hpre, hpost, hstate, hcnt, hnext, a, habs, rfl⟩ := squeezeLPP_cases hexec
  obtain ⟨hlength, hblks⟩ := h.blocksOf_eq hfin
  have hfst : (blocksOf parts).map Prod.fst = paddedBlocks (inputOf parts) := by
    rw [hblks, claimedBlocks, map_fst_zip (le_of_eq hlength.symm)]
  have hsnd : (blocksOf parts).map Prod.snd = trueCommitments (inputOf parts) := by
    rw [hblks, claimedBlocks, map_snd_zip (le_of_eq hlength), htrue]
  have hright : Right (blocksOf parts) := by
    rw [Right, hsnd, hfst]
    rfl
  have hfull : ∀ x ∈ blocksOf parts, x.1.length = blockSize := by
    intro x hx
    apply length_of_mem_paddedBlocks
    rw [← hfst]
    exact mem_map_of_mem hx
  rw [h.blocksProcessed] at hcnt
  -- The last two blocks are those of the two leaves.
  obtain ⟨before, y, x, hsplit⟩ : ∃ before y x, blocksOf parts = before ++ [y] ++ [x] := by
    have hne : blocksOf parts ≠ [] := by
      intro hnil
      rw [hnil] at hcnt
      cases hcnt
    have hne' : (blocksOf parts).dropLast ≠ [] := by
      intro hnil
      have hlen := congrArg length hnil
      rw [length_dropLast, ← hcnt] at hlen
      cases hlen
    exact ⟨_, _, _, by rw [dropLast_append_getLast hne', dropLast_append_getLast hne]⟩
  have hidx : pre.leaf.index = before.length := by grind
  have hy : (blocksOf parts)[pre.leaf.index]? = some y := by simp [hsplit, hidx]
  have hx : (blocksOf parts)[post.leaf.index]? = some x := by simp [hsplit, ← hnext, hidx]
  obtain ⟨-, hyc⟩ := h.leaf_eq hpre hgen.pre hy
  obtain ⟨hxinput, -⟩ := h.leaf_eq hpost hgen.post hx
  have hdrop : (blocksOf parts).dropLast = before ++ [y] := by rw [hsplit, dropLast_concat]
  rw [hsplit] at hright
  obtain ⟨hrb, -⟩ := right_append.mp hright
  have hmat : stateMatrix.1 = stateAfter (before ++ [y]) := by
    apply stateBytes_inj (by rw [stateMatrix.2, length_stateAfter])
    have hsame := hgen.state
    rw [hdrop] at hsame
    apply hsame
    change stateCommitment stateMatrix.1 = stateCommitment _
    rw [hstate, hyc]
    exact (right_append.mp hrb).2
  obtain ⟨a', habsorb', ha'⟩ := hlib.absorb_permutation stateMatrix (hfull x (mem_of_getElem? hx))
  rw [hxinput, habsorb'] at habs
  have hdigest : env.lib.squeeze (env.lib.permutation a) = keccak256 (inputOf parts) := by
    rw [hsqs, ← Except.ok.inj habs, ha', hmat, ← stateAfter_append, ← hsplit, stateAfter,
      hfst, keccak256_eq]
  rw [hdigest]

/-! ## Soundness -/

/-- What the oracle serves for a digest at an offset is what it should be for a preimage. -/
structure Serves (s : Oracle) (digest : Hash) (offset : ℕ) (preimage : Bytes) : Prop where
  hash : (keccak256 preimage).1.drop 1 = digest.1.drop 1
  length : s.preimageLengths digest = preimage.length
  part : (s.preimageParts digest offset).1.take (min 32 (preimage.length + 8 - offset)) =
    ((beBytes 8 preimage.length ++ preimage).drop offset).take 32

def squeezedInputs (history : List (Tx × OracleCall)) : Set Bytes :=
  { preimage | ∃ before tx key stateMatrix pre post after,
    history = before ++ (tx, .squeezeLPP key stateMatrix pre post) :: after ∧
      preimage = inputOf (submissions key before) }

/-- A proposal that is squeezed was finalized, and all its commitments are those of the sponge. -/
def Truthful (before : List (Tx × OracleCall)) : Tx × OracleCall → Prop
  | (_, .squeezeLPP key _ _ _) =>
    let parts := submissions key before
    Finished parts ∧ commitmentsOf parts = trueCommitments (inputOf parts)
  | _ => True

/-- A call of `squeezeLPP` contains no collision of the hash function, and its proposal does not
share its digest with another input that was squeezed. -/
def CollisionFree (before : List (Tx × OracleCall)) : Tx × OracleCall → Prop
  | (_, .squeezeLPP key stateMatrix pre post) =>
    let parts := submissions key before
    Genuine (blocksOf parts) stateMatrix pre post ∧
      ∀ preimage ∈ squeezedInputs before, digestKey (keccak256 preimage) =
        digestKey (keccak256 (inputOf parts)) → preimage = inputOf parts
  | _ => True

/-- The condition on the calls of a run. -/
structure Careful (before : List (Tx × OracleCall)) (c : Tx × OracleCall) (s : Oracle) : Prop where
  truthful : Truthful before c
  collisionFree : CollisionFree before c
  keepsInput : KeepsInput c s

/-- Everything that is served belongs to an input that was squeezed. -/
def Authorised (history : List (Tx × OracleCall)) (s : Oracle) : Prop :=
  ∀ digest offset, s.preimagePartOk digest offset = true → ∃ preimage ∈ squeezedInputs history,
    digestKey (keccak256 preimage) = digest ∧
      s.preimageLengths digest = preimage.length ∧
      HoldsPart (s.preimageParts digest offset) (beBytes 8 preimage.length ++ preimage) offset

lemma squeezedInputs_append {preimage : Bytes} (h : preimage ∈ squeezedInputs before) :
    preimage ∈ squeezedInputs (before ++ [c]) := by
  obtain ⟨b, tx, k, stateMatrix, pre, post, after, rfl, hpre⟩ := h
  exact ⟨b, tx, k, stateMatrix, pre, post, after ++ [c], by rw [append_assoc]; rfl, hpre⟩

lemma Authorised.keep (h : Authorised before s) (hok : s'.preimagePartOk = s.preimagePartOk)
    (hparts : s'.preimageParts = s.preimageParts)
    (hlens : s'.preimageLengths = s.preimageLengths) : Authorised (before ++ [c]) s' := by
  intro digest offset hsrv
  rw [hok] at hsrv
  obtain ⟨preimage, hpre, hfacts⟩ := h digest offset hsrv
  rw [hparts, hlens]
  exact ⟨preimage, squeezedInputs_append hpre, hfacts⟩

/-- Squeezing a finished proposal serves a part of its input. -/
theorem Authorised.squeeze (h : Authorised before s) (hsto : Stored (submissions key before) key s)
    (hfin : (s.proposalMetadata key).timestamp ≠ 0)
    (hapart : ∀ preimage ∈ squeezedInputs before, digestKey (keccak256 preimage) =
      digestKey (keccak256 (inputOf (submissions key before))) →
      preimage = inputOf (submissions key before)) :
    Authorised (before ++ [(tx, .squeezeLPP key stateMatrix pre post)])
      ((s.authorised key (digestKey
        (keccak256 (inputOf (submissions key before))))).paid key) := by
  generalize hinput : inputOf (submissions key before) = input at *
  obtain ⟨hne, hsize⟩ := hsto.complete hfin
  rw [hinput] at hne hsize
  have hinit : (s.proposalMetadata key).claimedSize ≠ 0 := by
    intro hzero
    rw [hzero] at hsize
    exact hne (length_eq_zero_iff.mp hsize.symm)
  have hoff := hsto.offset hinit
  rw [hsize] at hoff
  have hpart := hsto.part (by rwa [hinput]) (by rwa [hinput])
  rw [hinput, hsize] at hpart
  have hnew : input ∈ squeezedInputs (before ++ [(tx, .squeezeLPP key stateMatrix pre post)]) :=
    ⟨before, tx, key, stateMatrix, pre, post, [], rfl, hinput.symm⟩
  intro digest offset hsrv
  simp only [paid, authorised, hsize] at hsrv ⊢
  by_cases hdigest : digest = digestKey (keccak256 input)
  · subst hdigest
    simp only [update_self] at hsrv ⊢
    by_cases hat : offset = (s.proposalMetadata key).partOffset.toNat
    · grind
    · rw [update_of_ne hat] at hsrv ⊢
      obtain ⟨preimage, hpre, hkey, -, hold⟩ := h _ offset hsrv
      rw [hapart preimage hpre hkey] at hold
      exact ⟨input, hnew, rfl, rfl, hold⟩
  · simp only [update_of_ne hdigest] at hsrv ⊢
    obtain ⟨preimage, hpre, hfacts⟩ := h digest offset hsrv
    exact ⟨preimage, squeezedInputs_append hpre, hfacts⟩

/-- What is known of a proposal and of what is served, over a run. -/
structure Accounted (history : List (Tx × OracleCall)) (s : Oracle) : Prop where
  recorded : ∀ key, Recorded (submissions key history) key s
  stored : ∀ key, Stored (submissions key history) key s
  authorised : Authorised history s

lemma accounted_deployed : Accounted [] .deployed where
  recorded := recorded_deployed
  stored := stored_deployed
  authorised := by
    intro digest offset hsrv
    cases hsrv

lemma Accounted.call (hlib : env.lib.Faithful) (hsqs : env.lib.Squeezes)
    (h : Accounted before s) (hcare : Careful before c s) (hexec : Oracle.exec env c s = .ok s') :
    Accounted (before ++ [c]) s' := by
  refine ⟨fun key => (h.recorded key).call hlib hexec,
    fun key => (h.stored key).call hlib h.recorded hcare.keepsInput hexec, ?_⟩
  have hctr : ∀ {tx k s'}, counter tx k s = .ok s' → Authorised (before ++ [c]) s' := by
    intro tx k s' hctr
    obtain ⟨-, rfl⟩ := payoutBond_ok hctr
    exact h.authorised.keep rfl rfl rfl
  obtain ⟨tx, call⟩ := c
  cases call with
  | initLPP uuid partOffset claimedSize =>
    simp only [exec, initLPP, bind_eq_ok, pure_eq_ok] at hexec
    obtain ⟨-, -, -, -, -, -, -, -, -, -, rfl⟩ := hexec
    exact h.authorised.keep rfl rfl rfl
  | addLeavesLPP uuid args =>
    simp only [exec, addLeavesLPP, bind_eq_ok, pure_eq_ok] at hexec
    obtain ⟨-, -, -, -, -, -, -, -, -, -, _, -, -, -, -, -, _, -, -, -, rfl⟩ := hexec
    exact h.authorised.keep rfl rfl rfl
  | challengeLPP k stateMatrix pre post =>
    exact hctr (challengeLPP_counter hexec)
  | challengeFirstLPP k post =>
    exact hctr (challengeFirstLPP_counter hexec)
  | squeezeLPP k stateMatrix pre post =>
    obtain ⟨hfinished, htrue⟩ := hcare.truthful
    obtain ⟨hgen, hapart⟩ := hcare.collisionFree
    have hfin : (s.proposalMetadata k).timestamp ≠ 0 := by
      intro hzero
      obtain ⟨part, hlast, hfin⟩ := Option.map_eq_some_iff.mp hfinished
      rw [(h.recorded k).unfinished hzero part (mem_of_getLast? hlast)] at hfin
      cases hfin
    rw [(h.recorded k).squeezeLPP_digest hlib hsqs hfinished htrue hgen hexec]
    exact h.authorised.squeeze (h.stored k) hfin hapart

/-- Over every run in which all squeezed proposals were finalized with the commitments of the
sponge, everything that is served belongs to a preimage of its key, when no collision of the hash
function is used and `initLPP` is not called again with other arguments for a proposal that has
input. -/
theorem large_preimages_sound (env : OracleEnv) (hlib : env.lib.Faithful)
    (hsqueezes : env.lib.Squeezes) (calls : List (Tx × OracleCall))
    (hrun : Run.SuccessesMeet (exec env) Careful [] calls .deployed) (digest : Hash) (offset : ℕ)
    (hserved : (runAll (exec env) calls .deployed).preimagePartOk digest offset =
      true) :
    ∃ preimage, Serves (runAll (exec env) calls .deployed) digest offset preimage := by
  have hstep : ∀ before c s s', Accounted before s → Careful before c s →
      exec env c s = .ok s' → Accounted (before ++ [c]) s' :=
    fun _ _ _ _ h hcare hexec => h.call hlib hsqueezes hcare hexec
  have haccounted := runAll_inv_of_successesMeet hstep accounted_deployed hrun
  obtain ⟨preimage, -, rfl, hlen, hpart⟩ := haccounted.authorised digest offset hserved
  refine ⟨preimage, drop_set_of_lt (by decide) |>.symm, hlen, ?_⟩
  have htake := prefix_iff_eq_take.mp hpart
  rw [htake]
  congr 1
  rw [length_take, length_drop, length_append, length_beBytes]
  omega

/-! ## A proposal that is initialized again -/

def firstState : StateSnapshot :=
  ⟨absorbBlock Sponge.newLegacyKeccak256.a zeroBlock, by rw [length_absorbBlock]; rfl⟩

/-- A block of zeros with the right commitment. -/
def firstBlock : ClaimedBlock := (zeroBlock, stateCommitment firstState.1)

/-- The block of its padding with the right commitment. -/
def lastBlock : ClaimedBlock :=
  (padBytes [], stateCommitment (absorbBlock firstState.1 (padBytes [])))

lemma claimedBlocks_zeroBlock :
    claimedBlocks zeroBlock (trueCommitments zeroBlock) = [] ++ [firstBlock, lastBlock] := by
  have hfull : zeroBlock.length = blockSize := length_replicate
  have hpad : paddedBlocks zeroBlock = [zeroBlock, padBytes []] := by
    rw [paddedBlocks_of_le (le_of_eq hfull.symm), take_zeroBlock,
      drop_of_length_le (le_of_eq hfull), paddedBlocks_of_lt (by decide)]
  rw [claimedBlocks, trueCommitments, hpad]
  rfl

/-- A block of zeros is proposed with the right commitments, and then initialized again with some
size. -/
def reinitCalls (size : UInt32) : List (Tx × OracleCall) :=
  sampleCalls (trueCommitments zeroBlock) ++ [(sampleTx minBondSize, .initLPP 0 0 size)]

/-- The proposal is squeezed two days later. -/
def squeezeCall : Tx × OracleCall :=
  (lateTx, .squeezeLPP sampleKey firstState
    (provedLeaf (leafHashes [firstBlock, lastBlock]) 0 firstBlock)
    (provedLeaf (leafHashes [firstBlock, lastBlock]) 1 lastBlock))

/-- What is recorded after the calls when all of them succeed. -/
theorem reinitCalls_parts
    (hsucc : (successes (exec sampleEnv) (reinitCalls size) .deployed).length = 3) :
    let history := successes (exec sampleEnv) (reinitCalls size) .deployed
    Truthful history squeezeCall ∧
      blocksOf (submissions sampleKey history) = [] ++ [firstBlock, lastBlock] := by
  intro history
  generalize hhist : submissions sampleKey history = parts
  have hlib : sampleEnv.lib.Faithful := LibKeccak.reference_faithful
  have hrec : Recorded parts sampleKey _ := hhist ▸ run_recorded hlib (reinitCalls size) sampleKey
  have hsub : ∀ commitments : List Hash, submissions sampleKey (sampleCalls commitments ++
      [(sampleTx minBondSize, .initLPP 0 0 size)]) = [⟨zeroBlock, commitments, true⟩] :=
    fun _ => rfl
  have hparts : parts = [⟨zeroBlock, trueCommitments zeroBlock, true⟩] := by
    rw [← hhist]
    change submissions sampleKey (successes _ _ _) = _
    rw [(successes_sublist _ _).eq_of_length hsucc, reinitCalls, hsub]
  have hfin : Finished parts := by rw [hparts]; rfl
  have hinput : inputOf parts = zeroBlock := by
    rw [hparts, inputOf, flatMap_singleton]
  have hcomm : commitmentsOf parts = trueCommitments zeroBlock := by
    rw [hparts, commitmentsOf, flatMap_singleton]
  refine ⟨⟨hhist ▸ hfin, ?_⟩, ?_⟩
  · grind
  rw [(hrec.blocksOf_eq hfin).2, hinput, hcomm, claimedBlocks_zeroBlock]

lemma reinitCalls_squeezed
    (hsucc : (successes (exec sampleEnv) (reinitCalls size) .deployed).length = 3)
    (hctr : ((runAll (exec sampleEnv) (reinitCalls size) .deployed).proposalMetadata
      sampleKey).countered = false)
    (hper : ((runAll (exec sampleEnv) (reinitCalls size) .deployed).proposalMetadata
      sampleKey).timestamp.toNat + sampleEnv.challengePeriod < lateTx.timestamp.toNat) :
    let s := runAll (exec sampleEnv) (reinitCalls size) .deployed
    ∃ digest, exec sampleEnv squeezeCall s =
      .ok ((s.authorised sampleKey digest).paid sampleKey) := by
  intro s
  have hlib : sampleEnv.lib.Faithful := LibKeccak.reference_faithful
  have hrec := run_recorded hlib (reinitCalls size) sampleKey
  obtain ⟨-, hblks⟩ := reinitCalls_parts hsucc
  have hlast : lastBlock.1.length = blockSize := by
    rw [lastBlock, length_padBytes]
    rfl
  obtain ⟨a, -, hsq⟩ := hrec.squeezeLPP (run_funded hlib _) hlib hblks hlast
    (y := firstBlock) rfl rfl rfl hctr hper
  rw [hblks] at hsq
  exact ⟨_, hsq⟩

lemma authorised_served {s t : Oracle} {key : ProposalKey} {digest : Hash}
    (ht : t = (s.authorised key digest).paid key) {size : ℕ}
    (hoff : (s.proposalMetadata key).partOffset.toNat = offset)
    (hsize : (s.proposalMetadata key).claimedSize.toNat = size) :
    t.preimagePartOk digest offset = true ∧ t.preimageLengths digest = size ∧
      t.preimageParts digest offset = s.proposalParts key := by
  subst ht hoff hsize
  simp only [paid, authorised, update_self, and_self]

lemma truthful_of_mem (hc : c ∈ reinitCalls size) (before : List (Tx × OracleCall)) :
    Truthful before c ∧ CollisionFree before c := by
  simp only [reinitCalls, sampleCalls, cons_append, nil_append, mem_cons,
    not_mem_nil, or_false] at hc
  rcases hc with rfl | rfl | rfl <;> exact ⟨trivial, trivial⟩

/-- Initializing a finalized proposal again makes the oracle serve a length that does not belong to
the part: all proposals are finalized with the right commitments, and no preimage fits what is
served. -/
theorem reinitialized_squeezed :
    let calls := reinitCalls 1000 ++ [squeezeCall]
    let s := runAll (exec sampleEnv) calls .deployed
    SuccessesMeet (exec sampleEnv) (fun before c _ => Truthful before c) [] calls
      .deployed ∧
    ∃ digest, s.preimagePartOk digest 0 = true ∧ ¬∃ preimage, Serves s digest 0 preimage := by
  have hsucc : (successes (exec sampleEnv) (reinitCalls 1000) .deployed).length = 3 := by
    decide +kernel
  obtain ⟨htrue, -⟩ := reinitCalls_parts hsucc
  obtain ⟨digest, hsq⟩ := reinitCalls_squeezed hsucc (by decide +kernel) (by decide +kernel)
  have hoff : ((runAll (exec sampleEnv) (reinitCalls 1000)
      .deployed).proposalMetadata sampleKey).partOffset.toNat = 0 := by
    decide
  have hsize : ((runAll (exec sampleEnv) (reinitCalls 1000)
      .deployed).proposalMetadata sampleKey).claimedSize.toNat = 1000 := by
    decide
  have hhead : ((runAll (exec sampleEnv) (reinitCalls 1000)
      .deployed).proposalParts sampleKey).1.take 8 = beBytes 8 136 := by
    decide +kernel
  obtain ⟨hok, hlen, hpart⟩ := authorised_served (successes_concat hsq).2 hoff hsize
  refine ⟨?_, digest, hok, ?_⟩
  · have hopen : SuccessesMeet (exec sampleEnv) (fun _ _ _ => True) []
        (reinitCalls 1000) .deployed := by
      decide +kernel
    exact (hopen.mono fun before c hc _ _ => (truthful_of_mem hc before).1).concat hsq htrue
  · rintro ⟨preimage, hsrv⟩
    have hpre : preimage.length = 1000 := hsrv.length.symm.trans hlen
    have hbytes := congrArg (take 8) hsrv.part
    rw [hpart, hpre, take_take, drop_zero, take_take] at hbytes
    rw [show min 8 (min 32 (1000 + 8 - 0)) = 8 by rfl, hhead, show min 8 32 = 8 by rfl,
      take_left' (length_beBytes 8 1000)] at hbytes
    exact absurd hbytes (by decide)

lemma unforged_provedLeaf {x : ClaimedBlock} (hx : blocks[i]? = some x) :
    Unforged blocks (provedLeaf (leafHashes blocks) i x) := by
  constructor
  · intro height hht
    have hleaf : (provedLeaf (leafHashes blocks) i x).leaf.hash =
        leafAt (leafHashes blocks) i := (leafAt_leafHashes hx).symm
    have hpair : climbPair hashTwo i (provedLeaf (leafHashes blocks) i x).proof
        (leafAt (leafHashes blocks) i) height =
        childPair hashTwo (leafAt (leafHashes blocks)) i height := by
      apply climbPair_label
      intro j hj
      simp [provedLeaf, siblingsOf, lt_of_le_of_lt hj hht]
    rw [hleaf, show (provedLeaf (leafHashes blocks) i x).leaf.index = i from rfl, hpair]
    exact fun _ => rfl
  · intro b hb _
    rw [show (provedLeaf (leafHashes blocks) i x).leaf.index = i from rfl, hx] at hb
    rw [← Option.some.inj hb]
    rfl

/-- Initializing the proposal again with the size of its input is careful, and the oracle serves the
block of zeros. -/
theorem large_preimages_sound_sample :
    let calls := reinitCalls 136 ++ [squeezeCall]
    let s := runAll (exec sampleEnv) calls .deployed
    SuccessesMeet (exec sampleEnv) Careful [] calls .deployed ∧
      ∃ digest, s.preimagePartOk digest 0 = true ∧ ∃ preimage, Serves s digest 0 preimage := by
  have hlib : sampleEnv.lib.Faithful := LibKeccak.reference_faithful
  have hsucc : (successes (exec sampleEnv) (reinitCalls 136) .deployed).length = 3 := by
    decide +kernel
  obtain ⟨htrue, hblks⟩ := reinitCalls_parts hsucc
  obtain ⟨digest, hsq⟩ := reinitCalls_squeezed hsucc (by decide +kernel) (by decide +kernel)
  have hopen : SuccessesMeet (exec sampleEnv) (fun _ c s => KeepsInput c s) []
      (reinitCalls 136) .deployed := by
    decide +kernel
  have hnone : ∀ preimage, preimage ∉ squeezedInputs (successes (exec sampleEnv)
      (reinitCalls 136) .deployed) := by
    rintro preimage ⟨before, tx, key, stateMatrix, pre, post, after, hhist, -⟩
    have hmem : (tx, OracleCall.squeezeLPP key stateMatrix pre post) ∈ reinitCalls 136 :=
      (successes_sublist _ _).mem (by rw [hhist]; simp)
    simp [reinitCalls, sampleCalls] at hmem
  have hgen : CollisionFree (successes (exec sampleEnv) (reinitCalls 136) .deployed)
      squeezeCall := by
    refine ⟨?_, fun preimage hpre => absurd hpre (hnone preimage)⟩
    rw [hblks]
    exact ⟨unforged_provedLeaf rfl, unforged_provedLeaf rfl, fun _ => rfl⟩
  have hcare := (hopen.mono fun before c hc s hkeeps =>
    Careful.mk (truthful_of_mem hc before).1 (truthful_of_mem hc before).2 hkeeps).concat hsq
      ⟨htrue, hgen, trivial⟩
  have hoff : ((runAll (exec sampleEnv) (reinitCalls 136)
      .deployed).proposalMetadata sampleKey).partOffset.toNat = 0 := by
    decide
  obtain ⟨hok, -, -⟩ := authorised_served (successes_concat hsq).2 hoff rfl
  exact ⟨hcare, digest, hok,
    large_preimages_sound sampleEnv hlib (fun _ => rfl) _ hcare digest 0 hok⟩

end FightNight.Preimage
