import FightNight.Cannon.MachineRuns
import FightNight.Cannon.SyscallsAgree

/-!
# The machine and the contract

What the machine does in a step, the contract does with the view of its state, as long as the
calldata proves the words of memory that the step reads, and the oracle of the contract has the
preimages.
-/

namespace FightNight.Cannon

open FightNight.Except (bind_eq_ok ok_bind)
open ByteMap Memory InstrumentedState InstrumentedState Follows
open Preimage (Hash Hash.zero Oracle)

variable {keccak256 : Bytes → Hash} {preimages : Hash → Option Bytes} {bufSize : ℕ}
variable {m m' : InstrumentedState} {calldata : Bytes} {offset : ℕ} {addr : U32}

/-! ## Memory -/

/-- The calldata proves the word at an address of a memory with the contents `f`. -/
structure Opens (keccak256 : Bytes → Hash) (calldata : Bytes) (offset : ℕ) (f : ℕ → UInt8)
    (addr : U32) : Prop where
  read : readMem keccak256 calldata (flatRoot keccak256 f) addr offset =
    .ok (uint32 (readAt f addr.toNat 4))
  write : ∀ v : U32, writeMem keccak256 calldata addr offset v =
    .ok (flatRoot keccak256 (writeAt f addr.toNat (beBytes 4 v.toNat)))

variable {post pre : Bytes} {a0 a1 a2 at' fn insn opcode rdReg rs storeAddr v0 v1 val : U32}
  {memory : Memory} {key : Hash}

lemma opens_of_proof (hm : memory.Reliable keccak256) (halign : addr.toNat % 4 = 0)
    (hcall : calldata = pre ++ (memory.merkleProof keccak256 addr).1 ++ post)
    (hpre : pre.length = offset) : Opens keccak256 calldata offset memory.content addr := by
  rw [withProof_eq pre post hm.inv] at hcall
  subst hcall hpre
  exact ⟨readMem_withProof pre post halign, writeMem_withProof pre post halign⟩

/-- The proof of the access that the machine makes next is in the calldata. -/
structure Records (m m' : InstrumentedState) (calldata pre post : Bytes) (offset : ℕ) : Prop where
  enabled : m.memProofEnabled = true
  fresh : m.lastMemAccess = 0xFFFFFFFF
  proof : calldata = pre ++ m'.memProof ++ post
  offset_eq : pre.length = offset

lemma InstrumentedState.Fetched.opens {m₁ : InstrumentedState} {v : U32}
    (h : Fetched keccak256 m addr v m₁) (hm : m.state.memory.Reliable keccak256)
    (hrec : Records m m₁ calldata pre post offset) :
    Opens keccak256 calldata offset m.state.memory.content addr := by
  have hne : m.lastMemAccess ≠ addr := by
    intro heq
    have halign := h.aligned
    rw [← heq, hrec.fresh] at halign
    exact absurd halign (by decide)
  have hcall := hrec.proof
  rw [h.proof hrec.enabled hne] at hcall
  exact opens_of_proof hm h.aligned hcall hrec.offset_eq

/-! ## Instructions -/

lemma memoryFetch_agrees {rs' mem rdReg' : U32} (hm : m.state.memory.Reliable keccak256)
    (h : m.memoryFetch keccak256 insn opcode rs rdReg = .ok (rs', mem, storeAddr, rdReg', m'))
    (hopens : 0x20 ≤ opcode → Opens keccak256 calldata offset m.state.memory.content (rs' &&& 0xFFFFFFFC)) :
    MIPSInstructions.memoryFetch keccak256 calldata (flatRoot keccak256 m.state.memory.content)
      offset insn opcode rs rdReg = .ok (rs', mem, storeAddr, rdReg') := by
  unfold MIPSInstructions.memoryFetch
  rcases memoryFetch_cases hm h with ⟨hop, heq⟩ | ⟨hop, hrs, hfet, hstore⟩
  · cases heq
    exact if_neg hop
  · rw [MIPSInstructions.signExtend_eq]
    dsimp only
    rw [← hrs, (hopens hop).read, ← hfet.value]
    split_ifs at hstore ⊢ <;> cases hstore <;> rfl

/-- What a memory fetch leaves behind.  The address of a store is the one that was read, so that the
proof stays. -/
theorem memoryFetch_ran {rs' mem rdReg' : U32} (hm : m.state.memory.Reliable keccak256)
    (hen : m.memProofEnabled = true)
    (h : m.memoryFetch keccak256 insn opcode rs rdReg = .ok (rs', mem, storeAddr, rdReg', m')) :
    m'.core = m.core ∧ m'.state.memory.content = m.state.memory.content ∧
      (0x20 ≤ opcode → ∃ v, Fetched keccak256 m (rs' &&& 0xFFFFFFFC) v m') ∧
      (storeAddr ≠ 0xFFFFFFFF → 0x20 ≤ opcode ∧ storeAddr = rs' &&& 0xFFFFFFFC ∧
        m'.lastMemAccess = storeAddr) := by
  rcases memoryFetch_cases hm h with ⟨hop, heq⟩ | ⟨hop, -, hfet, hstore⟩
  · cases heq
    exact ⟨rfl, rfl, fun h => absurd h hop, fun h => absurd rfl h⟩
  · obtain ⟨memory, a, proof, hm'⟩ := hfet.accessed
    refine ⟨by rw [hm']; rfl, hfet.content, fun _ => ⟨_, hfet⟩, fun hne => ?_⟩
    split at hstore
    · cases hstore
      exact ⟨hop, rfl, hfet.tracked hen⟩
    · exact absurd (congrArg Prod.fst hstore) hne

/-- The results of an instruction in the two implementations. -/
def SameCore (keccak256 : Bytes → Hash) (m : InstrumentedState) (r : Core × Hash) : Prop :=
  r = (m.core, flatRoot keccak256 m.state.memory.content)

lemma withCore_agrees {x : Except Panic Core} {y : Except MipsRevert Core}
    (h : Follows Eq x y) :
    Follows (SameCore keccak256) (do pure (m.withCore (← x)))
      (do pure (← y, flatRoot keccak256 m.state.memory.content)) := by
  refine bind h ?_
  rintro core _ rfl
  exact pure rfl

lemma store_agrees (hm : m.state.memory.Reliable keccak256)
    (hopens : storeAddr ≠ 0xFFFFFFFF → Opens keccak256 calldata offset m.state.memory.content storeAddr) :
    Follows (fun m' root => m'.core = m.core ∧ root = flatRoot keccak256 m'.state.memory.content)
      (m.store keccak256 storeAddr val)
      (MIPSInstructions.store keccak256 calldata (flatRoot keccak256 m.state.memory.content) offset
        storeAddr val) := by
  intro m' h
  unfold MIPSInstructions.store
  rcases store_cases hm h with ⟨heq, rfl⟩ | ⟨hne, -, memory, a, proof, rfl, -, hcont, -⟩
  · exact ⟨_, if_neg (not_not.mpr heq), rfl, rfl⟩
  · rw [if_pos hne, (hopens hne).write, ← hcont]
    exact ⟨_, rfl, rfl, rfl⟩

lemma writeBack_agrees {rtReg rt : U32} (hm : m.state.memory.Reliable keccak256)
    (hopens : storeAddr ≠ 0xFFFFFFFF → Opens keccak256 calldata offset m.state.memory.content storeAddr) :
    Follows (SameCore keccak256) (m.writeBack keccak256 opcode fn rtReg rs rt val storeAddr rdReg)
      (MIPSInstructions.writeBack keccak256 calldata m.core
        (flatRoot keccak256 m.state.memory.content) offset opcode fn rtReg rs rt val storeAddr
        rdReg) := by
  refine ite ?_ ?_
  · rintro ⟨-, hfn⟩
    have hlink : (if fn = 8 then 0 else rdReg) = if fn = 9 then rdReg else 0 := by
      rcases hfn with rfl | rfl <;> rfl
    rw [hlink]
    exact withCore_agrees (MIPSInstructions.handleJump_agrees _ _ _)
  intro _
  refine ite (fun _ => withCore_agrees (MIPSInstructions.handleRd_agrees _ _ _ _)) ?_
  intro _
  refine ite (fun _ => withCore_agrees (MIPSInstructions.handleRd_agrees _ _ _ _)) ?_
  intro _
  refine ite (fun _ => withCore_agrees (MIPSInstructions.handleHiLo_agrees _ _ _ _ _)) ?_
  intro _
  refine bind (store_agrees (m := m.withCore _) hm hopens) ?_
  rintro m₁ root ⟨hcore, rfl⟩
  rw [hcore]
  exact withCore_agrees (MIPSInstructions.handleRd_agrees _ _ _ _)

lemma Follows.sameCore {x : Except Panic InstrumentedState} {y : Except MipsRevert (Core × Hash)}
    (hf : Follows (SameCore keccak256) x y) (h : x = .ok m') :
    y = .ok (m'.core, flatRoot keccak256 m'.state.memory.content) := by
  obtain ⟨_, hy, rfl⟩ := hf m' h
  exact hy

lemma execMipsCoreStepLogic_agrees (hm : m.state.memory.Reliable keccak256)
    (h : m.execMipsCoreStepLogic keccak256 insn opcode fn = .ok m')
    (hrec : Records m m' calldata pre post offset) :
    MIPSInstructions.execMipsCoreStepLogic keccak256 calldata m.core
        (flatRoot keccak256 m.state.memory.content) offset insn opcode fn =
      .ok (m'.core, flatRoot keccak256 m'.state.memory.content) := by
  unfold execMipsCoreStepLogic at h
  unfold MIPSInstructions.execMipsCoreStepLogic
  dsimp only at h ⊢
  split at h
  case isTrue hjump =>
    have hlink : (if opcode = 2 then (0 : U32) else 31) = if opcode = 3 then 31 else 0 := by
      rcases hjump with rfl | rfl <;> rfl
    rw [if_pos hjump, hlink]
    exact Follows.sameCore (withCore_agrees (MIPSInstructions.handleJump_agrees _ _ _)) h
  case isFalse hjump =>
    rw [if_neg hjump, MIPSInstructions.registerFetch_eq]
    split at h
    case isTrue hbr =>
      rw [if_pos hbr]
      exact Follows.sameCore (withCore_agrees (MIPSInstructions.handleBranch_agrees _ _ _ _ _)) h
    case isFalse hbr =>
      rw [if_neg hbr]
      obtain ⟨⟨rs', mem, storeAddr, rdReg', m₁⟩, hfetch, h⟩ := bind_eq_ok.mp h
      obtain ⟨val, hval, h⟩ := bind_eq_ok.mp h
      have hran := ran_memoryFetch hm hfetch
      have hback := ran_writeBack hran.reliable h
      have hones : val &&& 0xFFFFFFFF = val := BitVec.and_allOnes
      obtain ⟨hcore, hcont, hread, hstore⟩ := memoryFetch_ran hm hrec.enabled hfetch
      have hrec : Records m m₁ calldata pre post offset :=
        { hrec with proof := hback.2 (fun hne => (hstore hne).2.2) ▸ hrec.proof }
      have hopens : 0x20 ≤ opcode →
          Opens keccak256 calldata offset m.state.memory.content (rs' &&& 0xFFFFFFFC) := fun hop =>
        (hread hop).elim fun _ hfet => hfet.opens hm hrec
      have hstoreOpens : storeAddr ≠ 0xFFFFFFFF →
          Opens keccak256 calldata offset m₁.state.memory.content storeAddr := by
        intro hne
        rw [hcont, (hstore hne).2.1]
        exact hopens (hstore hne).1
      have hwrite := Follows.sameCore (writeBack_agrees hran.reliable hstoreOpens) h
      obtain ⟨_, hvalue, rfl⟩ := MIPSInstructions.executeMipsInstruction_agrees _ _ _ _ _ _ _ hval
      have hmemory := memoryFetch_agrees hm hfetch hopens
      rw [hcore, hcont] at hwrite
      have hregs : m.core.registers = m.state.registers := rfl
      rw [hregs, hmemory, ok_bind]
      rwa [hvalue, ok_bind, hones]

/-! ## Preimages -/

/-- The key under which the contract asks its oracle. -/
def contractKey (keccak256 : Bytes → Hash) (sender : ℕ) (localContext key : Hash) : Hash :=
  if key.1.head? = some 1 then MIPSSyscalls.localize keccak256 sender key localContext else key

/-- The oracle of the contract has the preimages of the machine: with local keys localized, every
part of a preimage with its length before it is there. -/
structure Serves (keccak256 : Bytes → Hash) (sender : ℕ) (localContext : Hash)
    (preimages : Hash → Option Bytes) (oracle : Oracle) : Prop where
  length : ∀ key data, preimages key = some data → data.length < 2 ^ 64 ∧
    oracle.preimageLengths (contractKey keccak256 sender localContext key) = data.length
  parts : ∀ key data, preimages key = some data → ∀ offset < data.length + 8,
    oracle.preimagePartOk (contractKey keccak256 sender localContext key) offset = true ∧
      oracle.preimageParts (contractKey keccak256 sender localContext key) offset =
        Preimage.Hash.ofBytes ((lengthPrefixed data).drop offset)

/-- The next step reads from the preimage oracle. -/
def Reads (m : InstrumentedState) : Prop :=
  m.state.exited = false ∧ m.insn >>> 26 = 0 ∧ m.insn &&& 0x3f = 0xC ∧
    m.state.registers 2 = 4003 ∧ m.state.registers 4 = 5

/-- When the next step reads from the preimage oracle, then not with the zero key before any
preimage was read, and not at the end of the preimage. -/
def ReadsWithin (preimages : Hash → Option Bytes) (m : InstrumentedState) : Prop :=
  Reads m → (m.state.preimageKey = Hash.zero → m.lastPreimage ≠ []) ∧
    ∀ data, preimages m.state.preimageKey = some data →
      m.state.preimageOffset.toNat < data.length + 8

variable {sender : ℕ} {localContext : Hash} {oracle : Oracle}

lemma partLength_eq {length offset : ℕ} (hlen : length < 2 ^ 64) (hoff : offset < length + 8) :
    MIPSSyscalls.partLength length offset = .ok (min 32 (length + 8 - offset)) := by
  have hlast : offset + 32 < 2 ^ 256 := by omega
  have htotal : length + 8 < 2 ^ 256 := by omega
  unfold MIPSSyscalls.partLength
  rw [Checked.add, if_pos hlast, ok_bind, Checked.add, if_pos htotal, ok_bind]
  split
  · grind [Checked.sub]
  · rw [min_eq_left (by omega)]
    rfl

lemma readPreimage_agrees (hsrv : Serves keccak256 sender localContext preimages oracle)
    {preimage : Bytes} (hrec : Recalled preimages m key at' preimage)
    (hzero : key = Hash.zero → m.lastPreimage ≠ [])
    (hin : ∀ data, preimages key = some data → at'.toNat < data.length + 8) :
    MIPSSyscalls.readPreimage oracle (contractKey keccak256 sender localContext key) at'.toNat =
      .ok (Preimage.Hash.ofBytes (preimage.drop at'.toNat), min 32 (preimage.length - at'.toNat)) := by
  rcases hrec.known with ⟨-, hnil, hkey⟩ | ⟨data, hdata, rfl⟩
  · exact absurd hnil (hzero hkey)
  · have hlt := hin data hdata
    obtain ⟨hsize, hlen⟩ := hsrv.length key data hdata
    obtain ⟨hok, hpart⟩ := hsrv.parts key data hdata _ hlt
    unfold MIPSSyscalls.readPreimage
    rw [Except.revertIf_bind (by rw [hok]; decide), hlen, partLength_eq hsize hlt, hpart]
    rfl

/-! ## System calls -/

lemma toNat_shorten (a1 a2 : U32) {n : ℕ} (hn : n ≤ 32) :
    (shorten a1 a2 (BitVec.ofNat 32 n)).toNat = readLen a1 a2 n := by
  have hsmall : (BitVec.ofNat 32 n).toNat = n := by grind
  have hlen := @toNat_readLen a1 a2 _ _ _ rfl (toNat_space a1) (BitVec.ofNat 32 n)
  rwa [hsmall] at hlen

lemma handleSysRead_agrees (hm : m.Healthy keccak256 preimages)
    (hsrv : Serves keccak256 sender localContext preimages oracle)
    (hin : a0 = 5 → (m.state.preimageKey = Hash.zero →
      m.lastPreimage ≠ []) ∧ ∀ data, preimages m.state.preimageKey = some data →
      m.state.preimageOffset.toNat < data.length + 8)
    (h : m.handleSysRead keccak256 preimages a0 a1 a2 = .ok (v0, v1, at', m'))
    (hrec : Records m m' calldata pre post offset) :
    MIPSSyscalls.handleSysRead keccak256 calldata oracle sender a0 a1 a2 m.state.preimageKey
        m.state.preimageOffset localContext offset (flatRoot keccak256 m.state.memory.content) =
      .ok (v0, v1, at', flatRoot keccak256 m'.state.memory.content) := by
  unfold MIPSSyscalls.handleSysRead
  rcases handleSysRead_cases hm h with ⟨hne, rfl, rfl, hvals⟩ |
    ⟨rfl, mem, preimage, m₁, memory, hfet, hread, rfl, rfl, rfl⟩
  · split_ifs at hvals ⊢ <;> cases hvals <;> rfl
  · have hopens := hfet.opens hm.memory { hrec with }
    obtain ⟨hzero, hlt⟩ := hin rfl
    have hpre := readPreimage_agrees hsrv hread.recalled hzero hlt
    have hn : min 32 (preimage.length - m.state.preimageOffset.toNat) ≤ 32 := min_le_left _ _
    have hlen := toNat_shorten a1 a2 hn
    have hcont := hread.content
    rw [← hread.datLen_eq] at hlen
    generalize min 32 (preimage.length - m.state.preimageOffset.toNat) = n at hn hlen hpre
    generalize Hash.ofBytes (preimage.drop m.state.preimageOffset.toNat) = dat
      at hcont hpre
    have hd := readLen_le a1 a2 n
    have htake : (dat.1.take (readLen a1 a2 n)).length = readLen a1 a2 n := by
      rw [List.length_take]
      omega
    have hnarrow : (BitVec.ofNat 256 (readLen a1 a2 n)).setWidth 32 = v0 := by
      apply BitVec.eq_of_toNat_eq
      rw [BitVec.toNat_setWidth, BitVec.toNat_ofNat, hlen,
        Nat.mod_eq_of_lt (by omega), Nat.mod_eq_of_lt (by omega)]
    have hbytes : patched mem (a1.toNat % 4) (dat.1.take (readLen a1 a2 n)) =
        (be32 mem).take (a1 &&& 3).toNat ++ dat.1.take v0.toNat ++
          (be32 mem).drop ((a1 &&& 3).toNat + v0.toNat) := by
      unfold patched
      rw [htake, hlen, toNat_alignment]
    rw [hopens.read, ok_bind, ← hfet.value]
    dsimp only
    unfold contractKey at hpre
    rw [hpre, ok_bind]
    rw [insertData_eq a1 a2 mem dat hn]
    rw [hopens.write, hnarrow, hbytes, ← hcont]
    rfl

lemma handleSysWrite_agrees {lastHint : Bytes} (hm : m.state.memory.Reliable keccak256)
    (h : m.handleSysWrite keccak256 bufSize a0 a1 a2 = .ok (v0, v1, lastHint, key, at', m'))
    (hrec : Records m m' calldata pre post offset) :
    MIPSSyscalls.handleSysWrite keccak256 calldata a0 a1 a2 m.state.preimageKey
        m.state.preimageOffset offset (flatRoot keccak256 m.state.memory.content) =
      .ok (v0, v1, key, at') := by
  unfold MIPSSyscalls.handleSysWrite
  rcases handleSysWrite_cases hm h with ⟨hne, rfl, rfl, hvals, -⟩ |
    ⟨rfl, rfl, rfl, rfl, mem, hfet, rfl⟩
  · split_ifs at hvals ⊢ <;> cases hvals <;> rfl
  · have hopens := hfet.opens hm hrec
    have hlen : (shortenKey a1 a2).toNat = writeLen a1 a2 := toNat_writeLen rfl (toNat_space a1)
    have hnarrow : BitVec.ofNat 32 (writeLen a1 a2) = shortenKey a1 a2 := by grind
    rw [hopens.read, ok_bind, ← hfet.value]
    rw [insertKey_eq, hnarrow, hlen, toNat_alignment]
    rfl

lemma handleSyscall_agrees (hm : m.Healthy keccak256 preimages)
    (hsrv : Serves keccak256 sender localContext preimages oracle)
    (hin : m.state.registers 2 = 4003 → m.state.registers 4 = 5 →
      (m.state.preimageKey = Hash.zero →
      m.lastPreimage ≠ []) ∧ ∀ data, preimages m.state.preimageKey = some data →
      m.state.preimageOffset.toNat < data.length + 8)
    (h : m.handleSyscall keccak256 preimages bufSize = .ok m')
    (hrec : Records m m' calldata pre post (memoryProofOffset MIPS.stepProofOffset 1)) :
    MIPS.handleSyscall keccak256 oracle sender calldata (m.state.view keccak256) localContext =
      .ok (m'.state.view keccak256) := by
  unfold handleSyscall at h
  unfold MIPS.handleSyscall
  have hregs : (m.state.view keccak256).registers = m.state.registers := rfl
  rw [hregs]
  dsimp only at h ⊢
  split_ifs at h ⊢ with hmmap hbrk hclone hexit hread hwrite hfcntl
  case pos => cases h; rfl
  case pos => cases h; rfl
  case pos => cases h; rfl
  case pos => cases h; rfl
  case pos =>
    obtain ⟨⟨v0, v1, at', m₁⟩, hsys, h⟩ := bind_eq_ok.mp h
    cases h
    have hagr := handleSysRead_agrees hm hsrv (hin hread) hsys { hrec with }
    obtain ⟨memory, hstate⟩ := handleSysRead_state hm hsys
    refine bind_eq_ok.mpr ⟨_, hagr, ?_⟩
    rw [hstate]
    rfl
  case pos =>
    obtain ⟨⟨v0, v1, lastHint, key, at', m₁⟩, hsys, h⟩ := bind_eq_ok.mp h
    cases h
    have hagr := handleSysWrite_agrees hm.memory hsys { hrec with }
    obtain ⟨memory, hstate, hcont⟩ := handleSysWrite_state hm.memory hsys
    refine bind_eq_ok.mpr ⟨_, hagr, ?_⟩
    rw [hstate]
    unfold State.view
    rw [← hcont]
    rfl
  all_goals cases h; rfl

/-! ## Steps -/

lemma view_counted (hcont : memory.content = m.state.memory.content) :
    (m.counted memory).state.view keccak256 =
      { m.state.view keccak256 with step := (m.state.view keccak256).step + 1 } := by
  unfold counted State.view
  rw [hcont]

lemma stepState_agrees (hm : m.Healthy keccak256 preimages)
    (hsrv : Serves keccak256 sender localContext preimages oracle)
    (hin : ReadsWithin preimages m) (h : m.mipsStep keccak256 preimages bufSize = .ok m')
    (hinsn : m.state.cpu.pc.toNat % 4 = 0 →
      Opens keccak256 calldata (memoryProofOffset MIPS.stepProofOffset 0) m.state.memory.content
      m.state.cpu.pc)
    (hrec : Records m m' calldata pre post (memoryProofOffset MIPS.stepProofOffset 1)) :
    MIPS.stepState keccak256 oracle sender calldata (m.state.view keccak256) localContext =
      .ok (m'.state.view keccak256) := by
  unfold MIPS.stepState
  rcases mipsStep_cases hm.memory h with
    ⟨hexit, rfl⟩ | ⟨hexit, halign, memory, hrel, hcont, hrun⟩
  · have hbyte : (m'.state.view keccak256).exited = 1 := if_pos hexit
    exact if_pos (by rw [hbyte]; decide)
  · have hbyte : (m.state.view keccak256).exited = 0 := by
      unfold State.view
      rw [hexit]
      rfl
    have hcnt : (m.counted memory).Healthy keccak256 preimages := ⟨hrel, hm.remembers⟩
    rw [if_neg (by rw [hbyte]; decide)]
    dsimp only
    have hread : readMem keccak256 calldata (m.state.view keccak256).memRoot
        (m.state.view keccak256).pc (memoryProofOffset MIPS.stepProofOffset 0) = .ok m.insn :=
      (hinsn halign).read
    rw [hread, ok_bind, ← view_counted hcont]
    split at hrun
    case isTrue hsys =>
      rw [if_pos hsys]
      refine handleSyscall_agrees (m := m.counted memory) hcnt hsrv ?_ hrun { hrec with }
      intro hnum hfd
      exact hin ⟨hexit, hsys.1, hsys.2, hnum, hfd⟩
    case isFalse hsys =>
      rw [if_neg hsys]
      have hexec := execMipsCoreStepLogic_agrees (m := m.counted memory) hrel hrun { hrec with }
      obtain ⟨memory', a, proof, core, hm', -⟩ :=
        ran_execMipsCoreStepLogic (m := m.counted memory) hrel hrun
      have hroot : (m.state.view keccak256).memRoot =
          flatRoot keccak256 (m.counted memory).state.memory.content :=
        congrArg (flatRoot keccak256) hcont.symm
      rw [hroot]
      refine bind_eq_ok.mpr ⟨_, hexec, ?_⟩
      apply congrArg Except.ok
      rw [hm']
      rfl

end FightNight.Cannon
