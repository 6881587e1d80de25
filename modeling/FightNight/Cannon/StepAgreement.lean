import FightNight.Cannon.Agreement

/-!
# The steps of the machine and of the contract

Whenever the machine makes a step with a proof, the contract computes the hash of the next state
from the witness of the step (`cannon_steps_agree`), with two exceptions in reading preimages: a
machine that has not read one yet takes the zero key for one that it has read, and it reads
nothing at the end of a preimage, where the oracle of the contract has no part.
-/

namespace FightNight.Cannon

open FightNight.Except (bind_eq_ok ok_bind revertIf_bind require_bind)
open ByteMap Memory InstrumentedState MemoryCall Preimage.Hash
open Preimage (Hash Hash.zero Oracle)

variable {keccak256 : Bytes → Hash} {preimages : Hash → Option Bytes} {bufSize : ℕ}
variable {m m' : InstrumentedState} {wit : StepWitness}
variable {sender : ℕ} {localContext : Hash} {oracle : Oracle}

/-! ## The witness of a step -/

/-- What the contract gets from the witness of a step: the view of the state, a proof for the
instruction, and behind it the memory proof that the step leaves. -/
structure Witnessed (keccak256 : Bytes → Hash) (m m' : InstrumentedState) (wit : StepWitness)
    (localContext : Hash) (calldata pre post : Bytes) : Prop where
  step : ∀ (oracle : Oracle) (sender : ℕ),
    MIPS.step keccak256 oracle sender wit.state wit.memProof localContext =
      (do pure ((← MIPS.stepState keccak256 oracle sender calldata (m.state.view keccak256)
        localContext).outputState keccak256))
  insn : m.state.cpu.pc.toNat % 4 = 0 →
    Opens keccak256 calldata (memoryProofOffset MIPS.stepProofOffset 0) m.state.memory.content
      m.state.cpu.pc
  proof : calldata = pre ++ m'.memProof ++ post
  offset : pre.length = memoryProofOffset MIPS.stepProofOffset 1

lemma exists_witnessed (hm : m.state.memory.Reliable keccak256)
    (h : m.step keccak256 preimages bufSize true = .ok (some wit, m')) (localContext : Hash) :
    ∃ calldata pre post, Witnessed keccak256 m m' wit localContext calldata pre post := by
  obtain ⟨w, memory, memory', hw, hrel, hcont, -, -, hstate, hproof, -⟩ := step_proof hm h
  cases hw
  have hview : wit.state = (m.state.view keccak256).packed := by
    rw [hstate, encodeWitness_view hrel.inv]
    unfold State.view
    rw [hcont]
  have hlen : wit.state.length = 226 := by rw [hview, MIPS.State.length_packed]
  have hinsn : (m.state.memory.merkleProof keccak256 m.state.cpu.pc).1.length = 896 := by
    rw [(merkleProof_spec hm.inv _).1, length_flatMap_hashes]
    exact congrArg (32 * ·) length_proofHashes
  obtain ⟨pre, mid, post, hcall, hpre, hmid⟩ := MIPS.stepCalldata_eq hlen wit.memProof localContext
  have hfirst : MIPS.stepCalldata wit.state wit.memProof localContext =
      (pre ++ wit.state ++ mid) ++ (m.state.memory.merkleProof keccak256 m.state.cpu.pc).1 ++
        (m'.memProof ++ post) := by grind
  have hlength : (pre ++ wit.state ++ mid).length = memoryProofOffset MIPS.stepProofOffset 0 := by
    rw [List.length_append, List.length_append, hpre, hlen, hmid]
    rfl
  refine ⟨MIPS.stepCalldata wit.state wit.memProof localContext,
    pre ++ wit.state ++ mid ++ (m.state.memory.merkleProof keccak256 m.state.cpu.pc).1, post,
    ?_, fun halign => opens_of_proof hm halign hfirst hlength, ?_, ?_⟩
  · intro oracle sender
    have hunpack : MIPS.unpack (MIPS.stepCalldata wit.state wit.memProof localContext) 132 =
        m.state.view keccak256 := by
      rw [hcall, hview]
      exact MIPS.unpack_packed _ _ _ hpre
    unfold MIPS.step
    rw [hlen, revertIf_bind (by decide), hunpack]
  · grind
  · rw [List.length_append, hlength, hinsn]
    rfl

lemma insn_of_content {memory : Memory} (hcont : memory.content = m.state.memory.content) :
    ((m.reset true).withMemory memory).insn = m.insn := by
  unfold insn withMemory
  rw [hcont]
  rfl

lemma view_of_content {memory : Memory} (hcont : memory.content = m.state.memory.content) :
    ((m.reset true).withMemory memory).state.view keccak256 = m.state.view keccak256 := by
  unfold State.view withMemory
  rw [hcont]
  rfl

lemma step_agrees (hm : m.Healthy keccak256 preimages)
    (hsrv : Serves keccak256 sender localContext preimages oracle) (hin : ReadsWithin preimages m)
    (h : m.step keccak256 preimages bufSize true = .ok (some wit, m')) :
    MIPS.step keccak256 oracle sender wit.state wit.memProof localContext =
      .ok (m'.state.encodeWitness keccak256).2.1 := by
  obtain ⟨calldata, pre, post, hwit⟩ := exists_witnessed hm.memory h localContext
  obtain ⟨-, -, memory, -, -, -, hrel, hcont, -, -, hrun⟩ := step_proof hm.memory h
  have hhealthy : ((m.reset true).withMemory memory).Healthy keccak256 preimages :=
    ⟨hrel, hm.remembers⟩
  have hwithin' : ReadsWithin preimages ((m.reset true).withMemory memory) := by
    intro hreads
    unfold Reads at hreads
    rw [insn_of_content hcont] at hreads
    exact hin hreads
  have hinsn : m.state.cpu.pc.toNat % 4 = 0 → Opens keccak256 calldata
      (memoryProofOffset MIPS.stepProofOffset 0) memory.content m.state.cpu.pc := by
    intro halign
    rw [hcont]
    exact hwit.insn halign
  have hsteps := stepState_agrees hhealthy hsrv hwithin' hrun hinsn
    ⟨rfl, rfl, hwit.proof, hwit.offset⟩
  rw [view_of_content hcont] at hsteps
  rw [hwit.step, hsteps, ok_bind, outputState_view (healthy_mipsStep hhealthy hrun).memory.inv]
  rfl

/-- The runs of the machine: steps with and without proofs. -/
def runSteps (keccak256 : Bytes → Hash) (preimages : Hash → Option Bytes) (bufSize : ℕ)
    (proofs : List Bool) (m : InstrumentedState) : InstrumentedState :=
  Run.runAll (fun proof m => (m.step keccak256 preimages bufSize proof).map Prod.snd) proofs m

lemma healthy_newInstrumentedState {calls : List MemoryCall}
    (hcare : Run.AllMeet (exec keccak256) Careful calls newMemory)
    {s : State} (hs : s.memory = Run.runAll (exec keccak256) calls newMemory) :
    (newInstrumentedState s).Healthy keccak256 preimages := by
  obtain ⟨hinv, hc, -⟩ := runAll_spec hcare inv_newMemory coherent_newMemory
  rw [← hs] at hinv hc
  exact ⟨⟨hinv, hc⟩, .inl ⟨rfl, rfl⟩⟩

/-! ## Reading what the oracle does not have -/

lemma handleSyscall_of_reads (hnum : m.state.registers 2 = 4003)
    (hfd : m.state.registers 4 = 5) :
    m.handleSyscall keccak256 preimages bufSize = (do
      let (v0, v1, preimageOffset, m) ← m.handleSysRead keccak256 preimages 5
        (m.state.registers 5) (m.state.registers 6)
      pure ({ m with state := { m.state with preimageOffset } }.update v0 v1)) := by
  unfold handleSyscall
  rw [hnum, hfd, if_neg (by decide), if_neg (by decide), if_neg (by decide),
    if_neg (by decide), if_pos rfl]

/-- The contract reverts when it is to read a part that its oracle does not have. -/
theorem stepState_of_missing {s : MIPS.State} {calldata : Bytes} {insn mem : U32}
    (hexit : s.exited = 0)
    (hinsn : readMem keccak256 calldata s.memRoot s.pc (memoryProofOffset MIPS.stepProofOffset 0) =
      .ok insn)
    (hsyscall : insn >>> 26 = 0 ∧ insn &&& 0x3f = 0xC) (hnum : s.registers 2 = 4003)
    (hfd : s.registers 4 = 5)
    (hread : readMem keccak256 calldata s.memRoot (s.registers 5 &&& 0xFFFFFFFC)
      (memoryProofOffset MIPS.stepProofOffset 1) = .ok mem)
    (hmiss : oracle.preimagePartOk (contractKey keccak256 sender localContext s.preimageKey)
      s.preimageOffset.toNat = false) :
    MIPS.stepState keccak256 oracle sender calldata s localContext =
      .error (.text "pre-image must exist") := by
  have hpart : MIPSSyscalls.readPreimage oracle
      (contractKey keccak256 sender localContext s.preimageKey) s.preimageOffset.toNat =
      .error (.text "pre-image must exist") := by
    unfold MIPSSyscalls.readPreimage Except.revertIf
    rw [if_pos hmiss]
    rfl
  have hsys : MIPSSyscalls.handleSysRead keccak256 calldata oracle sender 5 (s.registers 5)
      (s.registers 6) s.preimageKey s.preimageOffset localContext
      (memoryProofOffset MIPS.stepProofOffset 1) s.memRoot =
      .error (.text "pre-image must exist") := by
    unfold MIPSSyscalls.handleSysRead
    rw [hread]
    unfold contractKey at hpart
    dsimp only
    rw [hpart]
    rfl
  unfold MIPS.stepState
  rw [if_neg (by rw [hexit]; decide)]
  dsimp only
  rw [hinsn, ok_bind, if_pos hsyscall]
  unfold MIPS.handleSyscall
  dsimp only
  rw [hnum, hfd, hsys]
  rfl

lemma missing_part_reverts (hm : m.Healthy keccak256 preimages) (hreads : Reads m)
    (hmiss : oracle.preimagePartOk
      (contractKey keccak256 sender localContext m.state.preimageKey)
      m.state.preimageOffset.toNat = false)
    (h : m.step keccak256 preimages bufSize true = .ok (some wit, m')) :
    MIPS.step keccak256 oracle sender wit.state wit.memProof localContext =
      .error (.text "pre-image must exist") := by
  obtain ⟨calldata, pre, post, hwit⟩ := exists_witnessed hm.memory h localContext
  obtain ⟨-, -, memory, -, -, -, hrel, hcont, -, -, hrun⟩ := step_proof hm.memory h
  obtain ⟨hexit, hopcode, hfn, hnum, hfd⟩ := hreads
  have hinsn := insn_of_content hcont
  rcases mipsStep_cases (m := (m.reset true).withMemory memory) hrel hrun with
    ⟨hex, -⟩ | ⟨-, halign, memory', hreliable', hcontent', hcall⟩
  · exact absurd (hexit.symm.trans hex) (by decide)
  have hview : (m.state.view keccak256).exited = 0 := by
    unfold State.view
    rw [hexit]
    rfl
  have hhealthy : (((m.reset true).withMemory memory).counted memory').Healthy keccak256
      preimages := ⟨hreliable', hm.remembers⟩
  rw [hinsn, if_pos ⟨hopcode, hfn⟩,
    handleSyscall_of_reads (m := ((m.reset true).withMemory memory).counted memory') hnum hfd]
    at hcall
  obtain ⟨⟨v0, v1, at', m₁⟩, hsys, hlast⟩ := bind_eq_ok.mp hcall
  cases hlast
  rcases handleSysRead_cases hhealthy hsys with ⟨hne, -⟩ |
    ⟨-, mem, preimage, m₂, memory'', hfet, -, -, -, rfl⟩
  · exact absurd rfl hne
  have hopens := hfet.opens (m := ((m.reset true).withMemory memory).counted memory')
    hreliable' ⟨rfl, rfl, hwit.proof, hwit.offset⟩
  have hsame : memory'.content = m.state.memory.content := hcontent'.trans hcont
  have hread := hopens.read
  have hroot : flatRoot keccak256
      (((m.reset true).withMemory memory).counted memory').state.memory.content =
      (m.state.view keccak256).memRoot := congrArg (flatRoot keccak256) hsame
  rw [hroot] at hread
  rw [hwit.step, stepState_of_missing hview (hwit.insn halign).read ⟨hopcode, hfn⟩ hnum hfd
    hread hmiss]
  rfl

/-! ## Steps that read -/

/-- The machine has the preimage of the key, up to the offset. -/
def Available (preimages : Hash → Option Bytes) (m : InstrumentedState) : Prop :=
  (m.state.preimageKey = m.lastPreimageKey ∧
      m.state.preimageOffset.toNat ≤ m.lastPreimage.length) ∨
    (m.state.preimageKey ≠ m.lastPreimageKey ∧ ∃ data,
      preimages m.state.preimageKey = some data ∧
      m.state.preimageOffset.toNat ≤ (lengthPrefixed data).length)

lemma exists_readPreimage (h : Available preimages m) :
    ∃ r, m.readPreimage preimages m.state.preimageKey m.state.preimageOffset = .ok r := by
  unfold readPreimage askPreimage
  rcases h with ⟨heq, hle⟩ | ⟨hne, data, hdata, hle⟩
  · rw [if_neg (not_not.mpr heq), ok_bind]
    rw [revertIf_bind (not_lt.mpr hle)]
    exact ⟨_, rfl⟩
  · rw [if_pos hne, hdata, ok_bind]
    rw [revertIf_bind (not_lt.mpr hle)]
    exact ⟨_, rfl⟩

lemma toNat_aligned (a : U32) : (a &&& 0xFFFFFFFC).toNat % 4 = 0 := by
  have hbits : (a &&& 0xFFFFFFFC) &&& 3 = 0 := by simp [BitVec.and_assoc]
  rw [← toNat_alignment, hbits]
  rfl

lemma exists_handleSysRead (hm : m.Healthy keccak256 preimages)
    (hfresh : m.lastMemAccess = 0xFFFFFFFF) (h : Available preimages m) (a1 a2 : U32) :
    ∃ r, m.handleSysRead keccak256 preimages 5 a1 a2 = .ok r := by
  have halign := toNat_aligned a1
  have htracks : ∃ m₁, m.trackMemAccess keccak256 (a1 &&& 0xFFFFFFFC) = .ok m₁ := by
    unfold trackMemAccess
    split
    · rw [require_bind hfresh]
      exact ⟨_, rfl⟩
    · exact ⟨_, rfl⟩
  obtain ⟨m₁, htrack⟩ := htracks
  obtain ⟨memory, a, proof, rfl, hrel, -⟩ := trackMemAccess_spec hm.memory htrack
  obtain ⟨mem, memory₁, hget, hinv, -, -⟩ := getMemory_spec hrel.inv halign
  have hfetch : (m.accessed memory a proof).getMemory (a1 &&& 0xFFFFFFFC) =
      .ok (mem, m.accessed memory₁ a proof) := bind_eq_ok.mpr ⟨_, hget, rfl⟩
  have havailable : Available preimages (m.accessed memory₁ a proof) := h
  have hrem : (m.accessed memory₁ a proof).Remembers preimages := hm.remembers
  obtain ⟨⟨dat, n, m₂⟩, hread⟩ := exists_readPreimage havailable
  obtain ⟨preimage, -, rfl, -, -⟩ := readPreimage_ok hrem hread
  have hoff : (m.accessed memory₁ a proof).state.preimageOffset = m.state.preimageOffset := rfl
  rw [hoff] at hread
  unfold handleSysRead
  dsimp only
  rw [htrack, ok_bind, hfetch, ok_bind]
  rw [hread, ok_bind]
  obtain ⟨memory₂, hset, -⟩ := setMemory_spec hinv halign _
  exact ⟨_, bind_eq_ok.mpr ⟨_, bind_eq_ok.mpr ⟨_, hset, rfl⟩, rfl⟩⟩

lemma exists_mipsStep_of_reads (hm : m.Healthy keccak256 preimages) (hreads : Reads m)
    (hfresh : m.lastMemAccess = 0xFFFFFFFF) (halign : m.state.cpu.pc.toNat % 4 = 0)
    (h : Available preimages m) : ∃ m', m.mipsStep keccak256 preimages bufSize = .ok m' := by
  obtain ⟨hexit, hopcode, hfn, hnum, hfd⟩ := hreads
  obtain ⟨v, memory, hget, hinv, -, hv⟩ := getMemory_spec hm.memory.inv halign
  obtain ⟨hcoh, rfl⟩ := hv hm.memory.coherent
  have hhealthy : (m.counted memory).Healthy keccak256 preimages := ⟨⟨hinv, hcoh⟩, hm.remembers⟩
  obtain ⟨⟨v0, v1, offset, m₁⟩, hsys⟩ := exists_handleSysRead hhealthy hfresh
    (by exact h) (m.state.registers 5) (m.state.registers 6)
  have hcall : ∃ m', (m.counted memory).handleSyscall keccak256 preimages bufSize = .ok m' := by
    rw [handleSyscall_of_reads (m := m.counted memory) hnum hfd]
    exact ⟨_, bind_eq_ok.mpr ⟨_, hsys, rfl⟩⟩
  obtain ⟨m', hcall⟩ := hcall
  refine ⟨m', ?_⟩
  unfold mipsStep
  rw [if_neg (by rw [hexit]; decide)]
  refine bind_eq_ok.mpr ⟨(m.insn, m.counted memory), ?_, ?_⟩
  · exact bind_eq_ok.mpr ⟨_, hget, rfl⟩
  · exact (if_pos ⟨hopcode, hfn⟩).trans hcall

lemma exists_step_of_reads (hm : m.Healthy keccak256 preimages) (hreads : Reads m)
    (halign : m.state.cpu.pc.toNat % 4 = 0) (h : Available preimages m) :
    ∃ wit m', m.step keccak256 preimages bufSize true = .ok (some wit, m') := by
  have hproof := reliable_merkleProof hm.memory m.state.cpu.pc
  have hroot := reliable_merkleRoot hproof.1
  obtain ⟨memory, hmemory⟩ : ∃ memory, ((m.state.memory.merkleProof keccak256
    m.state.cpu.pc).2.merkleRoot keccak256).2 = memory := ⟨_, rfl⟩
  rw [hmemory] at hroot
  have hhealthy : ((m.reset true).withMemory memory).Healthy keccak256 preimages :=
    ⟨hroot.1, hm.remembers⟩
  have hreads' : Reads ((m.reset true).withMemory memory) := by
    unfold Reads
    rwa [insn_of_content (hroot.2.trans hproof.2)]
  obtain ⟨m', hstep⟩ : ∃ m', ((m.reset true).withMemory memory).mipsStep keccak256 preimages
      bufSize = .ok m' := exists_mipsStep_of_reads hhealthy hreads' rfl halign h
  unfold step
  dsimp only [withMemory, State.encodeWitness, reset] at hstep ⊢
  rw [hmemory, hstep]
  exact ⟨_, m', rfl⟩

/-! ## The agreement -/

/-- Whenever the machine, in a run from a state whose memory careful calls lead to, makes a step
with a proof that does not read a preimage with the zero key before any other or at its end, the
contract returns the hash of the state after the step, from the witness of the step and with an
oracle that serves the same preimages. -/
theorem cannon_steps_agree (keccak256 : Bytes → Hash) (preimages : Hash → Option Bytes)
    (bufSize : ℕ) (calls : List MemoryCall)
    (hcareful : Run.AllMeet (exec keccak256) Careful calls newMemory)
    (s : State) (hs : s.memory = Run.runAll (exec keccak256) calls newMemory)
    (proofs : List Bool) (oracle : Oracle) (sender : ℕ) (localContext : Hash)
    (hserves : Serves keccak256 sender localContext preimages oracle) :
    let m := runSteps keccak256 preimages bufSize proofs (newInstrumentedState s)
    ∀ wit m', m.step keccak256 preimages bufSize true = .ok (some wit, m') →
      ReadsWithin preimages m →
      MIPS.step keccak256 oracle sender wit.state wit.memProof localContext =
        .ok (m'.state.encodeWitness keccak256).2.1 := by
  intro m wit m' h hin
  have hm : m.Healthy keccak256 preimages := healthy_run (healthy_newInstrumentedState hcareful hs)
  exact step_agrees hm hserves hin h

/-- A state at a system call that reads from a preimage into the third word of the memory. -/
def readingState (key : Hash) : State where
  memory := Run.runAll (exec firstWord) [.setMemory 0 0xC] newMemory
  preimageKey := key
  preimageOffset := 0
  cpu := { pc := 0, nextPC := 4, lo := 0, hi := 0 }
  heap := 0
  exitCode := 0
  exited := false
  step := 0
  registers := fun r => if r = 2 then 4003 else if r = 4 then 5 else if r = 5 then 8 else
    if r = 6 then 4 else 0
  lastHint := []

lemma careful_readingState : Run.AllMeet (exec firstWord)
    Careful [.setMemory 0 0xC] newMemory := ⟨⟨trivial, trivial⟩, trivial⟩

lemma reads_readingState (key : Hash) : Reads (newInstrumentedState (readingState key)) := by
  have hm : (newInstrumentedState (readingState key)).Healthy firstWord fun _ => none :=
    healthy_newInstrumentedState careful_readingState rfl
  have hword : ((readingState key).memory.getMemory 0).map Prod.fst = .ok 0xC := rfl
  have hinsn : (newInstrumentedState (readingState key)).insn = 0xC := by
    obtain ⟨v, memory, hget, -, -, hread⟩ :=
      getMemory_spec hm.memory.inv (rfl : (0 : U32).toNat % 4 = 0)
    have hmap : (Except.ok (v, memory) : Except Panic _).map Prod.fst = .ok 0xC := by
      rwa [← hget]
    have hv : v = 0xC := Except.ok.inj hmap
    exact (hread hm.memory.coherent).2.symm.trans hv
  refine ⟨rfl, ?_, ?_, rfl, rfl⟩ <;> rw [hinsn] <;> rfl

def oneByteOracle : Oracle where
  __ := Oracle.deployed
  preimageLengths := fun _ => 1
  preimageParts := fun _ offset => ofBytes ((lengthPrefixed [7]).drop offset)
  preimagePartOk := fun _ offset => decide (offset < 9)

lemma serves_oneByteOracle : Serves firstWord 0 Hash.zero (fun _ => some [7]) oneByteOracle where
  length := by
    rintro key data ⟨⟩
    exact ⟨by decide, rfl⟩
  parts := by
    rintro key data ⟨⟩ offset hoff
    exact ⟨decide_eq_true hoff, rfl⟩

theorem cannon_steps_agree_reading_one_byte :
    ∃ wit m', (newInstrumentedState (readingState (ofBytes [2]))).step
        firstWord (fun _ => some [7]) 1 true = .ok (some wit, m') ∧
      MIPS.step firstWord oneByteOracle 0 wit.state wit.memProof Hash.zero =
        .ok (m'.state.encodeWitness firstWord).2.1 := by
  have hm : (newInstrumentedState (readingState (ofBytes [2]))).Healthy
      firstWord fun _ => some [7] := healthy_newInstrumentedState careful_readingState rfl
  have hreads := reads_readingState (ofBytes [2])
  have hne : ofBytes [2] ≠ zero := by decide
  obtain ⟨wit, m', hstep⟩ := @exists_step_of_reads _ _ 1 _ hm hreads rfl
    (.inr ⟨hne, [7], rfl, Nat.zero_le _⟩)
  refine ⟨wit, m', hstep, cannon_steps_agree firstWord (fun _ => some [7]) 1
    [.setMemory 0 0xC] careful_readingState (readingState (ofBytes [2])) rfl []
    oneByteOracle 0 zero serves_oneByteOracle wit m' hstep ?_⟩
  intro _
  refine ⟨fun hzero => absurd hzero hne, ?_⟩
  rintro data ⟨⟩
  decide

/-- The machine that has not read a preimage yet reads nothing for the zero key; the contract
reverts, although its oracle has every preimage of the machine. -/
theorem zero_key_step_reverts :
    Serves firstWord 0 Hash.zero (fun _ => none) Oracle.deployed ∧
    ∃ wit m', (newInstrumentedState (readingState Hash.zero)).step
        firstWord (fun _ => none) 1 true = .ok (some wit, m') ∧
      MIPS.step firstWord Oracle.deployed 0 wit.state wit.memProof Hash.zero =
        .error (.text "pre-image must exist") := by
  have hm : (newInstrumentedState (readingState zero)).Healthy firstWord
      fun _ => none := healthy_newInstrumentedState careful_readingState rfl
  have hreads := reads_readingState zero
  obtain ⟨wit, m', hstep⟩ := @exists_step_of_reads _ _ 1 _ hm hreads rfl
    (.inl ⟨rfl, Nat.zero_le _⟩)
  exact ⟨⟨nofun, nofun⟩, wit, m', hstep, missing_part_reverts hm hreads rfl hstep⟩

end FightNight.Cannon
