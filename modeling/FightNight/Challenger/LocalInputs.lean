import FightNight.Challenger.Split

/-!
# What an execution trace starts from

The trace of an execution game is run on local inputs: the output root that both sides agree on,
the disputed one and its block number.  The challenger reads the roots from the claims and
computes the number in `ClaimedBlockNumber`
(`op-challenger/game/fault/trace/outputs/provider.go`); on chain `addLocalData` loads them.  The
roots are always the same.  The number is not: the challenger stops at the block of the root
claim, and the contract counts on.
-/

namespace FightNight.Challenger

open Option Checked
open FightNight.Except (bind_eq_ok ok_bind revertIf_of_not revertIf_bind)
open Preimage (Hash)
open Dispute (Game GameEnv ClaimData outputNode)
open Bisection Dispute LibPosition

/-! ## The top provider -/

/-- `OutputRollupClient`, by its answers. -/
structure RollupClient where
  /-- The output root of `OutputAtBlock`. -/
  outputAtBlock : UInt64 → Except ChallengerError Hash
  /-- The number of the safe head of `SafeHeadAtL1Block`. -/
  safeHeadAtL1Block : UInt64 → Except ChallengerError UInt64

structure BlockID where
  hash : Hash
  number : UInt64

structure Proposal where
  l2BlockNumber : ℕ
  outputRoot : Hash

structure OutputTraceProvider where
  rollupProvider : RollupClient
  prestateBlock : UInt64
  poststateBlock : UInt64
  l1Head : BlockID
  gameDepth : ℕ

namespace OutputTraceProvider

variable (o : OutputTraceProvider)

def absolutePreStateCommitment : Except ChallengerError Hash :=
  o.rollupProvider.outputAtBlock o.prestateBlock

def claimedBlockNumber (pos : Position) : Except ChallengerError UInt64 := do
  let traceIndex ← pos.traceIndex o.gameDepth
  Except.revertIf (2 ^ 64 ≤ traceIndex) .indexTooBig
  let outputBlock := UInt64.ofNat traceIndex + o.prestateBlock + 1
  pure (if o.poststateBlock < outputBlock then o.poststateBlock else outputBlock)

def honestBlockNumber (pos : Position) : Except ChallengerError UInt64 := do
  let outputBlock ← o.claimedBlockNumber pos
  let maxSafeHead ← o.rollupProvider.safeHeadAtL1Block o.l1Head.number
  pure (if maxSafeHead < outputBlock then maxSafeHead else outputBlock)

/-- The first part of `FetchProposals`. -/
def fetchAgreed : Option Claim → Except ChallengerError Proposal
  | none => do
    let prestateRoot ← o.absolutePreStateCommitment
    pure ⟨o.prestateBlock.toNat, prestateRoot⟩
  | some pre => do
    let preBlockNum ← o.honestBlockNumber pre.position
    pure ⟨preBlockNum.toNat, pre.value⟩

def fetchProposals (pre : Option Claim) (post : Claim) :
    Except ChallengerError (Proposal × Proposal) := do
  let agreed ← o.fetchAgreed pre
  let postBlockNum ← o.claimedBlockNumber post.position
  pure (agreed, ⟨postBlockNum.toNat, post.value⟩)

end OutputTraceProvider

/-- `PrestateValidator.Validate`, for what the contract and the provider answer. -/
def validatePrestate (load provider : Except ChallengerError Hash) : Except ChallengerError Unit := do
  let prestateHash ← load
  let prestateCommitment ← provider
  Except.revertIf (prestateCommitment ≠ prestateHash) .invalidPrestate

/-! ## Local inputs -/

structure LocalGameInputs where
  l1Head : Hash
  l2Head : Hash
  l2OutputRoot : Hash
  l2Claim : Hash
  l2BlockNumber : ℕ

/-- `LocalPreimageSource.Get` in the virtual machine's host, for the keys that the game decides. -/
def LocalGameInputs.get (inputs : LocalGameInputs) : ℕ → Option Bytes
  | 1 => some inputs.l1Head.1
  | 2 => some inputs.l2OutputRoot.1
  | 3 => some inputs.l2Claim.1
  | 4 => some (beBytes 8 inputs.l2BlockNumber)
  | _ => none

/-- `FetchLocalInputsFromProposals`; `l2Client` answers with the hash of the header of a block. -/
def fetchLocalInputsFromProposals (l1Head : Hash) (l2Client : ℕ → Except ChallengerError Hash)
    (agreedOutput claimedOutput : Proposal) : Except ChallengerError LocalGameInputs := do
  let l2Head ← l2Client agreedOutput.l2BlockNumber
  pure ⟨l1Head, l2Head, agreedOutput.outputRoot, claimedOutput.outputRoot,
    claimedOutput.l2BlockNumber⟩

def outputRootSplitAdapter {Q : Type} (keccak256 : Bytes → Hash) (topProvider : OutputTraceProvider)
    (creator : Hash → ℕ → Proposal → Proposal → Except ChallengerError Q) (depth : ℕ)
    (pre : Option Claim) (post : Claim) : Except ChallengerError Q := do
  let localContext ← createLocalContext keccak256 pre post
  let (agreed, disputed) ← topProvider.fetchProposals pre post
  creator localContext depth agreed disputed

/-- `CannonTraceProvider`: the trace of an execution game. -/
structure CannonTraceProvider where
  localContext : Hash
  localInputs : LocalGameInputs
  gameDepth : ℕ

/-- `cannonCreator` in `NewOutputCannonTraceAccessor`. -/
def cannonCreator (l1Head : Hash) (l2Client : ℕ → Except ChallengerError Hash) (localContext : Hash)
    (depth : ℕ) (agreed claimed : Proposal) : Except ChallengerError CannonTraceProvider := do
  let localInputs ← fetchLocalInputsFromProposals l1Head l2Client agreed claimed
  pure ⟨localContext, localInputs, depth⟩

/-- What the trace of a game is computed from. -/
structure TraceSources where
  l2Client : ℕ → Except ChallengerError Hash
  rollupClient : RollupClient
  l1Head : BlockID
  prestateBlock : UInt64
  poststateBlock : UInt64

/-- The top provider of `NewOutputCannonTraceAccessor`. -/
def TraceSources.outputProvider (src : TraceSources) (splitDepth : ℕ) : OutputTraceProvider where
  rollupProvider := src.rollupClient
  prestateBlock := src.prestateBlock
  poststateBlock := src.poststateBlock
  l1Head := src.l1Head
  gameDepth := splitDepth

/-- `NewOutputCannonTraceAccessor`: the selector of trace providers. -/
def newOutputCannonTraceAccessor (keccak256 : Bytes → Hash) (src : TraceSources) (splitDepth : ℕ) :
    GameState → Claim → Position →
      Except ChallengerError (Selected OutputTraceProvider CannonTraceProvider) :=
  newSplitProviderSelector (src.outputProvider splitDepth) splitDepth
    (outputRootSplitAdapter keccak256 (src.outputProvider splitDepth)
      (cannonCreator src.l1Head.hash src.l2Client))

/-! ## Block numbers -/

namespace OutputTraceProvider

variable {o : OutputTraceProvider} {p : Position} {t : ℕ}

lemma toNat_outputBlock (t : ℕ) (b : UInt64) :
    (UInt64.ofNat t + b + 1).toNat = (b.toNat + t + 1) % 2 ^ 64 := by
  rw [UInt64.toNat_add, UInt64.toNat_add, UInt64.toNat_ofNat', UInt64.toNat_one]
  omega

lemma claimedBlockNumber_eq_ok (ht : p.traceIndex o.gameDepth = .ok t) {n : UInt64} :
    o.claimedBlockNumber p = .ok n ↔ t < 2 ^ 64 ∧
      n.toNat = min ((o.prestateBlock.toNat + t + 1) % 2 ^ 64) o.poststateBlock.toNat := by
  rw [claimedBlockNumber, ht, ok_bind]
  simp only [bind_eq_ok, Except.revertIf_eq_ok, exists_const, Except.pure_eq_ok, not_le,
    UInt64.lt_iff_toNat_lt, ← UInt64.toNat_inj, apply_ite UInt64.toNat, toNat_outputBlock]
  refine and_congr_right fun _ => ?_
  split <;> omega

lemma exists_honestBlockNumber (ht : p.traceIndex o.gameDepth = .ok t) (hlt : t < 2 ^ 64)
    {head : UInt64} (hhead : o.rollupProvider.safeHeadAtL1Block o.l1Head.number = .ok head) :
    ∃ n, o.honestBlockNumber p = .ok n ∧ n ≤ head := by
  obtain ⟨m, hm⟩ : ∃ m, o.claimedBlockNumber p = .ok m := by
    refine ⟨UInt64.ofNat (min ((o.prestateBlock.toNat + t + 1) % 2 ^ 64) o.poststateBlock.toNat),
      (claimedBlockNumber_eq_ok ht).mpr ⟨hlt, UInt64.toNat_ofNat_of_lt' ?_⟩⟩
    exact lt_of_le_of_lt (min_le_right _ _) o.poststateBlock.toNat_lt
  rw [honestBlockNumber, hm, ok_bind, hhead, ok_bind]
  refine ⟨_, rfl, ?_⟩
  split
  · exact UInt64.le_refl head
  · exact UInt64.not_lt.mp ‹_›

end OutputTraceProvider

/-! ## Loading on chain -/

/-- What `loadLocalData` takes from the word. -/
def loadedBytes (d : Game.LocalData) : Bytes := d.word.1.take d.size

lemma loadedBytes_word (ident : ℕ) (localContext word : Hash) (partOffset : ℕ) :
    loadedBytes ⟨ident, localContext, word, 32, partOffset⟩ = word.1 :=
  List.take_of_length_le (le_of_eq word.2)

variable {env : GameEnv} {s : Game} {i : ℕ} {c : ClaimData}

lemma take_bytes32_shl (n : ℕ) :
    (Game.bytes32 (Word.shl 0xC0 n)).1.take 8 = beBytes 8 (n % 2 ^ 64) := by
  have hword : Word.shl 0xC0 n = n % 2 ^ 64 * 256 ^ 24 := by
    rw [Word.shl_eq (j := 64) (by decide), show 256 = 2 ^ 8 by decide, ← pow_mul]
  change (beBytes (8 + 24) (Word.shl 0xC0 n)).take 8 = _
  rw [take_beBytes, hword, Nat.mul_div_cancel _ (Nat.pow_pos (by decide))]

section Loading

variable {outputs : Game.Outputs} (hprogress : s.status = .inProgress)
  (hfind : s.findStartingAndDisputedOutputs env i = .ok outputs) (partOffset : ℕ)

include hprogress hfind

lemma addLocalData_roots :
    s.addLocalData env 2 i partOffset = .ok ⟨2, Game.computeLocalContext env outputs,
        outputs.startingClaim, 32, partOffset⟩ ∧
      s.addLocalData env 3 i partOffset = .ok ⟨3, Game.computeLocalContext env outputs,
        outputs.disputedClaim, 32, partOffset⟩ := by
  have hcheck : ¬s.status ≠ .inProgress := not_not.mpr hprogress
  constructor <;> rw [Game.addLocalData, revertIf_bind hcheck, hfind,
    ok_bind] <;> rfl

lemma addLocalData_number {t : ℕ} (ht : traceIndex outputs.disputedPos env.splitDepth = t)
    (hlt : s.startingOutputRoot.l2BlockNumber + t + 1 < 2 ^ 256) :
    s.addLocalData env 4 i partOffset = .ok ⟨4, Game.computeLocalContext env outputs,
      Game.bytes32 (Word.shl 0xC0 (s.startingOutputRoot.l2BlockNumber + t + 1)), 8, partOffset⟩ := by
  have hcheck : ¬s.status ≠ .inProgress := not_not.mpr hprogress
  subst ht
  have hblock := add_eq_ok (e := GameRevert.panic 0x11).mpr ⟨Nat.lt_of_succ_lt hlt, rfl⟩
  have hnum := add_eq_ok (e := GameRevert.panic 0x11).mpr ⟨hlt, rfl⟩
  rw [Game.addLocalData, revertIf_bind hcheck, hfind, ok_bind]
  change (add _ _ _ >>= fun block => add _ block 1 >>= _) = _
  rw [hblock, ok_bind, hnum, ok_bind]
  rfl

end Loading

/-! ## Agreement -/

/-- The sources of a trace: the top provider is about the blocks from the starting one to that of
the root claim, its prestate was validated, and the nodes answer for the blocks up to the safe head.
-/
structure TraceSources.Serve (src : TraceSources) (env : GameEnv) (s : Game) : Prop where
  prestateBlock_eq : src.prestateBlock.toNat = s.startingOutputRoot.l2BlockNumber
  poststateBlock_eq : src.poststateBlock.toNat = env.l2BlockNumber
  validated : validatePrestate (.ok s.startingOutputRoot.root)
    (src.outputProvider env.splitDepth).absolutePreStateCommitment = .ok ()
  safeHead : ∃ head : UInt64, src.rollupClient.safeHeadAtL1Block src.l1Head.number = .ok head ∧
    ∀ n ≤ head.toNat, ∃ hash, src.l2Client n = .ok hash
  prestateHeader : ∃ hash, src.l2Client src.prestateBlock.toNat = .ok hash

/-- The challenger has a trace for the claim, and its host answers for the starting output root (2),
the disputed one (3) and its block number (4) with what the contract loads. -/
def InputsAgree (src : TraceSources) (env : GameEnv) (s : Game) (i : ℕ) (c : ClaimData)
    (partOffset : ℕ) : Prop :=
  ∃ provider rootDepth, newOutputCannonTraceAccessor env.keccak256 src env.splitDepth
      (newGameFromContracts env s) (decodeClaim c i) (decodeClaim c i).position =
        .ok (.translate provider rootDepth) ∧
    ∀ ident ∈ [2, 3, 4], ∃ d, s.addLocalData env ident i partOffset = .ok d ∧
      provider.localInputs.get ident = some (loadedBytes d)

variable {src : TraceSources}

lemma TraceSources.Serve.absolutePreStateCommitment_eq (h : src.Serve env s) :
    (src.outputProvider env.splitDepth).absolutePreStateCommitment =
      .ok s.startingOutputRoot.root := by
  have hvalid := h.validated
  rw [validatePrestate, ok_bind, bind_eq_ok] at hvalid
  obtain ⟨hash, hload, hcheck⟩ := hvalid
  rw [Except.revertIf_eq_ok, not_not] at hcheck
  rw [hload, hcheck]

variable {pre : Option Claim} {outputs : Game.Outputs} {post : Claim}

lemma exists_fetchAgreed (hserve : src.Serve env s) (hagr : SplitAgrees s outputs pre post)
    (hidx : ∀ p, pre = some p → ∃ t, p.position.traceIndex env.splitDepth = .ok t ∧ t < 2 ^ 64) :
    ∃ agreed hash, (src.outputProvider env.splitDepth).fetchAgreed pre = .ok agreed ∧
      agreed.outputRoot = outputs.startingClaim ∧ src.l2Client agreed.l2BlockNumber = .ok hash := by
  cases pre with
  | none =>
    obtain ⟨hash, hhash⟩ := hserve.prestateHeader
    refine ⟨⟨_, _⟩, hash, ?_, (hagr.anchor rfl).symm, hhash⟩
    rw [OutputTraceProvider.fetchAgreed, hserve.absolutePreStateCommitment_eq]
    rfl
  | some p =>
    obtain ⟨t, ht, hlt⟩ := hidx p rfl
    obtain ⟨head, hhead, hheaders⟩ := hserve.safeHead
    obtain ⟨n, hn, hle⟩ := OutputTraceProvider.exists_honestBlockNumber
      (o := src.outputProvider env.splitDepth) ht hlt hhead
    obtain ⟨hash, hhash⟩ := hheaders n.toNat (UInt64.le_iff_toNat_le.mp hle)
    refine ⟨⟨n.toNat, p.value⟩, hash, ?_, (hagr.pre_some p rfl).2.1, hhash⟩
    rw [OutputTraceProvider.fetchAgreed, hn]
    rfl

/-- The trace that the challenger creates for two outputs has the disputed block number that the top
provider computes. -/
theorem outputRootSplitAdapter_eq_ok {o : OutputTraceProvider} {localContext : Hash}
    (hctx : createLocalContext env.keccak256 pre post = .ok localContext) (l1Head : Hash)
    (l2Client : ℕ → Except ChallengerError Hash) (depth : ℕ) {provider : CannonTraceProvider} :
    outputRootSplitAdapter env.keccak256 o (cannonCreator l1Head l2Client) depth pre post =
        .ok provider ↔
      ∃ agreed n l2Head, o.fetchAgreed pre = .ok agreed ∧ o.claimedBlockNumber post.position = .ok n ∧
        l2Client agreed.l2BlockNumber = .ok l2Head ∧ provider = ⟨localContext,
          ⟨l1Head, l2Head, agreed.outputRoot, post.value, n.toNat⟩, depth⟩ := by
  rw [outputRootSplitAdapter, hctx, ok_bind]
  simp only [OutputTraceProvider.fetchProposals, cannonCreator, fetchLocalInputsFromProposals,
    bind_eq_ok, Except.pure_eq_ok]
  constructor
  · rintro ⟨-, ⟨agreed, hagr, n, hn, rfl⟩, -, ⟨l2Head, hhead, rfl⟩, rfl⟩
    exact ⟨agreed, n, l2Head, hagr, hn, hhead, rfl⟩
  · rintro ⟨agreed, n, l2Head, hagr, hn, hhead, rfl⟩
    exact ⟨_, ⟨agreed, hagr, n, hn, rfl⟩, _, ⟨l2Head, hhead, rfl⟩, rfl⟩

/-- The indices of the selected claims: the one of the node above the claim, and the one before. -/
theorem SplitAgrees.traceIndex_eq (hagr : SplitAgrees s outputs pre post)
    (h : Tree env s.claimData) (hc : s.claimData[i]? = some c)
    (hdepth : env.splitDepth < c.position.log2)
    (hfind : s.findStartingAndDisputedOutputs env i = .ok outputs) {t : ℕ}
    (ht : outputNode env c - 2 ^ env.splitDepth = t) :
    t < 2 ^ 125 ∧
      LibPosition.traceIndex outputs.disputedPos env.splitDepth = t ∧
      post.position.traceIndex env.splitDepth = .ok t ∧
      ∀ p, pre = some p → ∃ u, p.position.traceIndex env.splitDepth = .ok u ∧ u < t := by
  obtain ⟨hne, hlog, hreach, hstart⟩ := h.outputs_reach hc hdepth hfind
  have hsplit : env.splitDepth < 125 := lt_of_lt_of_le env.splitDepth_lt env.maxGameDepth_le
  have hpow : 2 ^ env.splitDepth < 2 ^ 125 := Nat.pow_lt_pow_right (by decide) hsplit
  have hchain := LibPosition.traceIndex_eq hne (by omega) hlog (by omega)
  have hlow := two_pow_lt_reach hne hlog
  have hbound := reach_le_two_pow hlog
  rw [pow_succ] at hbound
  refine ⟨by omega, by omega, ?_, ?_⟩
  · have hvalid := valid_of_mem h hagr.post_mem
    rw [hvalid.traceIndex_eq_ok, hagr.post_position, ← hvalid.log2_toGIndex, hagr.post_position]
    exact ⟨hlog, by omega⟩
  · intro p hp
    obtain ⟨hmem, -, hposition⟩ := hagr.pre_some p hp
    have hpos : outputs.startingPos ≠ 0 := fun h0 => nomatch hp.symm.trans (hagr.pre_none_iff.mpr h0)
    obtain ⟨hlog', hreach'⟩ := hstart hpos
    have hvalid := valid_of_mem h hmem
    obtain ⟨u, hu, hutrace⟩ := Claim.exists_traceIndex hvalid (D := env.splitDepth)
      (by rwa [← hvalid.log2_toGIndex, hposition])
    rw [Claim.gIndex, hposition, hreach'] at hutrace
    exact ⟨u, hu, by omega⟩

/-- The local inputs of the challenger are those of the contract exactly when the index of the
disputed output fits in 64 bits and its block, in 64 bits, is not after that of the root claim. -/
theorem local_inputs_agree_iff (hs : Game.Reachable env s) (hprogress : s.status = .inProgress)
    (hserve : src.Serve env s) (hc : s.claimData[i]? = some c)
    (hdepth : env.splitDepth < depth c.position) (partOffset : ℕ) :
    InputsAgree src env s i c partOffset ↔ outputNode env c - 2 ^ env.splitDepth < 2 ^ 64 ∧
      (s.startingOutputRoot.l2BlockNumber + (outputNode env c - 2 ^ env.splitDepth) + 1) % 2 ^ 64 ≤
        env.l2BlockNumber := by
  have htree := hs.grown.tree
  rw [htree.depth_eq (List.mem_of_getElem? hc)] at hdepth
  obtain ⟨outputs, pre, post, hfind, hagr, hselect⟩ := newSplitProviderSelector_eq htree hc hdepth
  generalize ht : outputNode env c - 2 ^ env.splitDepth = t
  obtain ⟨hbound, hchain, hpost, hpre⟩ := hagr.traceIndex_eq htree hc hdepth hfind ht
  have hctx := hagr.createLocalContext htree
  have hprestate := hserve.prestateBlock_eq
  have hpoststate := hserve.poststateBlock_eq
  obtain ⟨hstarting, hdisp⟩ := addLocalData_roots hprogress hfind partOffset
  have hfits : s.startingOutputRoot.l2BlockNumber + t + 1 < 2 ^ 256 := by
    have hstart := src.prestateBlock.toNat_lt
    omega
  have hnum := addLocalData_number hprogress hfind partOffset hchain hfits
  constructor
  · rintro ⟨provider, rootDepth, hacc, hidents⟩
    rw [newOutputCannonTraceAccessor, hselect, Except.map_eq_ok] at hacc
    obtain ⟨_, hcr, ⟨⟩⟩ := hacc
    obtain ⟨agreed, n, l2Head, -, hn, -, rfl⟩ := (outputRootSplitAdapter_eq_ok hctx _ _ _).mp hcr
    obtain ⟨hlt, hn⟩ := (OutputTraceProvider.claimedBlockNumber_eq_ok hpost).mp hn
    obtain ⟨d, hd, hload⟩ := hidents 4 (by decide)
    obtain rfl := Except.ok.inj (hnum.symm.trans hd)
    have hbytes : beBytes 8 n.toNat =
        beBytes 8 ((s.startingOutputRoot.l2BlockNumber + t + 1) % 2 ^ 64) :=
      (some.inj hload).trans (take_bytes32_shl _)
    have hsame : n.toNat = (s.startingOutputRoot.l2BlockNumber + t + 1) % 2 ^ 64 :=
      (beBytes_inj (show n.toNat < 256 ^ 8 from n.toNat_lt) (Nat.mod_lt _ (by decide))).mp hbytes
    refine ⟨hlt, ?_⟩
    rw [← hsame, hn, ← hpoststate]
    exact min_le_right _ _
  · rintro ⟨hlt, hle⟩
    obtain ⟨agreed, l2Head, hagreed, hroot, hhead⟩ := exists_fetchAgreed hserve hagr fun p hp =>
      (hpre p hp).imp fun u hu => ⟨hu.1, lt_trans hu.2 hlt⟩
    -- The block is not after the one of the root claim, so the minimum is the block itself.
    obtain ⟨n, hn⟩ : ∃ n : UInt64, n.toNat =
        (s.startingOutputRoot.l2BlockNumber + t + 1) % 2 ^ 64 :=
      ⟨_, UInt64.toNat_ofNat_of_lt' (Nat.mod_lt _ (by decide))⟩
    have hclm : (src.outputProvider env.splitDepth).claimedBlockNumber post.position = .ok n := by
      refine (OutputTraceProvider.claimedBlockNumber_eq_ok hpost).mpr ⟨hlt, ?_⟩
      change _ = min ((src.prestateBlock.toNat + t + 1) % 2 ^ 64) src.poststateBlock.toNat
      omega
    have hcr := (outputRootSplitAdapter_eq_ok hctx src.l1Head.hash src.l2Client
      (env.maxGameDepth - env.splitDepth - 1)).mpr ⟨agreed, n, l2Head, hagreed, hclm, hhead, rfl⟩
    have hacc := (hselect (src.outputProvider env.splitDepth) _).trans
      (Except.map_eq_ok.mpr ⟨_, hcr, rfl⟩)
    refine ⟨_, _, hacc, ?_⟩
    simp only [List.forall_mem_cons, List.not_mem_nil, false_implies, implies_true, and_true]
    refine ⟨⟨_, hstarting, ?_⟩, ⟨_, hdisp, ?_⟩, ⟨_, hnum, ?_⟩⟩
    · rw [loadedBytes_word, ← hroot]
      rfl
    · rw [loadedBytes_word, ← hagr.post_value]
      rfl
    · exact congrArg some ((congrArg (beBytes 8) hn).trans (take_bytes32_shl _).symm)

/-! ## Example games -/

/-- Nodes that know one block after the anchor of the sample games. -/
def sampleSources : TraceSources where
  l2Client := fun _ => .ok (sampleHash 0 7)
  rollupClient := ⟨fun _ => .ok (sampleHash 0 3), fun _ => .ok 1⟩
  l1Head := ⟨sampleHash 0 2, 5⟩
  prestateBlock := 0
  poststateBlock := 1

lemma sampleSources_serve (hblock : s.startingOutputRoot = ⟨sampleHash 0 3, 0⟩)
    (hnum : env.l2BlockNumber = 1) : sampleSources.Serve env s where
  prestateBlock_eq := by rw [hblock]; rfl
  poststateBlock_eq := hnum.symm
  validated := by
    have hsame : ¬sampleHash 0 3 ≠ sampleHash 0 3 := not_not.mpr rfl
    rw [hblock]
    exact revertIf_of_not (e := .invalidPrestate) hsame
  safeHead := ⟨1, rfl, fun _ _ => ⟨_, rfl⟩⟩
  prestateHeader := ⟨_, rfl⟩

/-- The root claim, about the output of block 1, is attacked at the first of two outputs, and then the
output after that one is attacked by an execution game. -/
def pastRootCalls : List (GameTx × GameCall) :=
  [sampleMove (sampleHash 0 1) 0 (sampleHash 1 4) true,
    sampleMove (sampleHash 1 4) 1 (sampleHash 0 5) false]

def pastRootGame : Game :=
  Run.runAll (Game.exec walkEnv) pastRootCalls (sampleGame walkEnv)

def hostAnswer (selected : Except ChallengerError (Selected OutputTraceProvider CannonTraceProvider))
    (ident : ℕ) : Option Bytes :=
  match selected with
  | .ok (.translate provider _) => provider.localInputs.get ident
  | _ => none

/-- The second output of a game about one block: the challenger runs its trace for block 1, the
contract loads block 2. -/
theorem past_root_number_differs :
    Game.Reachable walkEnv pastRootGame ∧ pastRootGame.status = .inProgress ∧
      sampleSources.Serve walkEnv pastRootGame ∧
      ∃ c, pastRootGame.claimData[2]? = some c ∧
        walkEnv.splitDepth < depth c.position ∧
        hostAnswer (newOutputCannonTraceAccessor walkEnv.keccak256 sampleSources
          walkEnv.splitDepth (newGameFromContracts walkEnv pastRootGame)
          (decodeClaim c 2) (decodeClaim c 2).position) 4 = some (beBytes 8 1) ∧
        (pastRootGame.addLocalData walkEnv 4 2 0).map loadedBytes = .ok (beBytes 8 2) ∧
        ¬InputsAgree sampleSources walkEnv pastRootGame 2 c 0 := by
  have hclaim : pastRootGame.claimData[2]?.map (fun c => (depth c.position,
      hostAnswer (newOutputCannonTraceAccessor walkEnv.keccak256 sampleSources
        walkEnv.splitDepth (newGameFromContracts walkEnv pastRootGame)
        (decodeClaim c 2) (decodeClaim c 2).position) 4)) = some (2, some (beBytes 8 1)) := by
    decide +kernel
  obtain ⟨c, hc, hboth⟩ := map_eq_some_iff.mp hclaim
  obtain ⟨hdepth, hhost⟩ := Prod.mk.inj hboth
  have hload : (pastRootGame.addLocalData walkEnv 4 2 0).map loadedBytes = .ok (beBytes 8 2) := by
    decide
  refine ⟨⟨sampleTx 0 0, ⟨sampleHash 0 3, 0⟩, sampleGame walkEnv,
    pastRootCalls, rfl, rfl⟩, by decide, sampleSources_serve (by decide) rfl, c, hc,
    hdepth ▸ by decide, hhost, hload, ?_⟩
  rintro ⟨provider, rootDepth, hacc, hidents⟩
  obtain ⟨d, hd, hget⟩ := hidents 4 (by decide)
  rw [hd] at hload
  rw [hacc, hostAnswer, hget, some.injEq,
    show loadedBytes d = beBytes 8 2 from Except.ok.inj hload] at hhost
  exact absurd hhost (by decide)

/-- The first output is one that both sides number alike. -/
theorem local_inputs_agree_iff_sample :
    ∃ c, walkGame.claimData[3]? = some c ∧
      InputsAgree sampleSources walkEnv walkGame 3 c 0 := by
  obtain ⟨c, hc, hpos, -⟩ := walkGame_claim
  have hdepth : walkEnv.splitDepth < depth c.position := by
    rw [hpos]
    decide
  have hprogress : walkGame.status = .inProgress := by decide
  have hserve : sampleSources.Serve walkEnv walkGame := sampleSources_serve (by decide) rfl
  refine ⟨c, hc, (local_inputs_agree_iff walkGame_reachable hprogress hserve hc hdepth 0).mpr ?_⟩
  have hnode : outputNode walkEnv c = 2 := by
    rw [outputNode, hpos]
    decide
  have hblock : walkGame.startingOutputRoot.l2BlockNumber = 0 := by decide
  rw [hnode, hblock]
  decide

end FightNight.Challenger
