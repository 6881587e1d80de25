import FightNight.Cannon.Machine
import FightNight.Cannon.MemoryRuns

/-!
# What the steps of the machine keep

In every state that steps lead to, the hashes and the lookup cache of the memory are right, and the
preimage that the machine remembers is the one of the key that it remembers, unless it has not read
a preimage yet.
-/

namespace FightNight.Cannon

open FightNight.Except (bind_eq_ok revertIf_eq_ok)
open ByteMap Memory
open Preimage (Hash Hash.zero)

/-- The hashes and the lookup cache of a memory are right. -/
structure Memory.Reliable (keccak256 : Bytes → Hash) (m : Memory) : Prop where
  inv : Inv keccak256 m
  coherent : Coherent m

namespace InstrumentedState

variable {keccak256 : Bytes → Hash} {preimages : Hash → Option Bytes} {bufSize : ℕ}
variable {m m' : InstrumentedState} {addr : U32}

/-- The machine remembers the preimage of a key, or nothing. -/
def Remembers (preimages : Hash → Option Bytes) (m : InstrumentedState) : Prop :=
  (m.lastPreimage = [] ∧ m.lastPreimageKey = Hash.zero) ∨
    ∃ data, preimages m.lastPreimageKey = some data ∧ m.lastPreimage = lengthPrefixed data

/-- What holds of the machine between steps. -/
structure Healthy (keccak256 : Bytes → Hash) (preimages : Hash → Option Bytes)
    (m : InstrumentedState) : Prop where
  memory : m.state.memory.Reliable keccak256
  remembers : m.Remembers preimages

/-- The machine with other caches of its memory and another memory proof. -/
def accessed (m : InstrumentedState) (memory : Memory) (addr : U32) (proof : Bytes) :
    InstrumentedState :=
  { m.withMemory memory with lastMemAccess := addr, memProof := proof }

/-! ## Memory accesses -/

variable {a0 a1 a2 fn mem offset opcode rdReg rdReg' rs rs' storeAddr v v0 v1 val : U32}
  {wit : Option StepWitness} {memory : Memory} {key : Hash} {lastHint : Bytes}

lemma reliable_merkleProof (h : memory.Reliable keccak256) (addr : U32) :
    (memory.merkleProof keccak256 addr).2.Reliable keccak256 ∧
      (memory.merkleProof keccak256 addr).2.content = memory.content := by
  obtain ⟨-, hinv, hgrows⟩ := merkleProof_spec h.inv addr
  exact ⟨⟨hinv, hgrows.coherent h.coherent⟩, hgrows.content⟩

lemma reliable_merkleRoot (h : memory.Reliable keccak256) :
    (memory.merkleRoot keccak256).2.Reliable keccak256 ∧
      (memory.merkleRoot keccak256).2.content = memory.content := by
  have hroot := merkleRoot_spec h.inv
  exact ⟨⟨hroot.inv, hroot.grows.coherent h.coherent⟩, hroot.grows.content⟩

section

variable (hm : m.state.memory.Reliable keccak256)
include hm

/-- Tracking an access changes caches only; with proofs enabled there is a proof for the address,
unless there was one already. -/
theorem trackMemAccess_spec (h : m.trackMemAccess keccak256 addr = .ok m') :
    ∃ memory a proof, m' = m.accessed memory a proof ∧ memory.Reliable keccak256 ∧
      memory.content = m.state.memory.content ∧
      (m.memProofEnabled = true → a = addr ∧ (m.lastMemAccess ≠ addr →
        proof = (m.state.memory.merkleProof keccak256 addr).1)) := by
  unfold trackMemAccess at h
  split at h
  case isTrue htrack =>
    obtain ⟨_, -, hok⟩ := bind_eq_ok.mp h
    obtain ⟨hrel, hcont⟩ := reliable_merkleProof hm addr
    cases hok
    exact ⟨_, _, _, rfl, hrel, hcont, fun _ => ⟨rfl, fun _ => rfl⟩⟩
  case isFalse hno =>
    cases h
    refine ⟨m.state.memory, m.lastMemAccess, m.memProof, rfl, hm, rfl, ?_⟩
    intro hen
    have hsame : m.lastMemAccess = addr := by
      by_contra hne
      exact hno ⟨hen, hne⟩
    exact ⟨hsame, fun hne => absurd hsame hne⟩

lemma getMemory_ok (h : m.getMemory addr = .ok (v, m')) :
    ∃ memory, m' = m.withMemory memory ∧ memory.Reliable keccak256 ∧
      memory.content = m.state.memory.content ∧ addr.toNat % 4 = 0 ∧
      v = uint32 (readAt m.state.memory.content addr.toNat 4) := by
  obtain ⟨⟨w, memory⟩, hget, hok⟩ := bind_eq_ok.mp h
  have halign : addr.toNat % 4 = 0 := by
    obtain ⟨_, hrev, _⟩ := bind_eq_ok.mp hget
    exact not_not.mp (revertIf_eq_ok.mp hrev)
  obtain ⟨v₁, memory₁, hget₁, hinv, hcont, hread⟩ := getMemory_spec hm.inv halign
  obtain ⟨rfl, rfl⟩ : v₁ = w ∧ memory₁ = memory := by simpa using hget₁.symm.trans hget
  cases hok
  obtain ⟨hc, hv⟩ := hread hm.coherent
  exact ⟨memory₁, rfl, ⟨hinv, hc⟩, hcont, halign, hv⟩

lemma setMemory_ok (h : m.setMemory addr v = .ok m') :
    ∃ memory, m' = m.withMemory memory ∧ memory.Reliable keccak256 ∧ addr.toNat % 4 = 0 ∧
      memory.content = writeAt m.state.memory.content addr.toNat (beBytes 4 v.toNat) := by
  obtain ⟨memory, hset, hok⟩ := bind_eq_ok.mp h
  cases hok
  have halign : addr.toNat % 4 = 0 := by
    obtain ⟨_, hrev, _⟩ := bind_eq_ok.mp hset
    exact not_not.mp (revertIf_eq_ok.mp hrev)
  obtain ⟨memory₁, hset₁, hinv, hwrite⟩ := setMemory_spec hm.inv halign v
  obtain rfl : memory₁ = memory := by simpa using hset₁.symm.trans hset
  obtain ⟨hc, hcont⟩ := hwrite hm.coherent
  exact ⟨memory₁, rfl, ⟨hinv, hc⟩, halign, hcont⟩

/-- The outcome of reading a word of memory in a step. -/
structure Fetched (keccak256 : Bytes → Hash) (m : InstrumentedState) (addr v : U32)
    (m' : InstrumentedState) : Prop where
  accessed : ∃ memory a proof, m' = m.accessed memory a proof
  reliable : m'.state.memory.Reliable keccak256
  content : m'.state.memory.content = m.state.memory.content
  aligned : addr.toNat % 4 = 0
  value : v = uint32 (readAt m.state.memory.content addr.toNat 4)
  tracked : m.memProofEnabled = true → m'.lastMemAccess = addr
  proof : m.memProofEnabled = true → m.lastMemAccess ≠ addr →
    m'.memProof = (m.state.memory.merkleProof keccak256 addr).1

lemma fetched {m₁ : InstrumentedState}
    (htrack : m.trackMemAccess keccak256 addr = .ok m₁) (hget : m₁.getMemory addr = .ok (v, m')) :
    Fetched keccak256 m addr v m' := by
  obtain ⟨memory, a, proof, rfl, hrel, hcont, hproof⟩ := trackMemAccess_spec hm htrack
  obtain ⟨memory', rfl, hreliable', hcontent', halign, hv⟩ := getMemory_ok hrel hget
  have hsame : memory'.content = m.state.memory.content := hcontent'.trans hcont
  have hvalue : v = uint32 (readAt memory.content addr.toNat 4) := hv
  rw [hcont] at hvalue
  exact ⟨⟨memory', a, proof, rfl⟩, hreliable', hsame, halign, hvalue,
    fun hen => (hproof hen).1, fun hen => (hproof hen).2⟩

/-! ## Instructions -/

/-- What an instruction can change. -/
def Ran (keccak256 : Bytes → Hash) (m m' : InstrumentedState) : Prop :=
  ∃ memory a proof core, m' = (m.accessed memory a proof).withCore core ∧
    memory.Reliable keccak256

lemma Ran.withCore (core : Core) :
    Ran keccak256 m (m.withCore core) :=
  ⟨m.state.memory, m.lastMemAccess, m.memProof, core, rfl, hm⟩

end

lemma Ran.trans {m'' : InstrumentedState} (h : Ran keccak256 m m') (h' : Ran keccak256 m' m'') :
    Ran keccak256 m m'' := by
  obtain ⟨memory, a, proof, core, rfl, -⟩ := h
  obtain ⟨memory', a', proof', core', rfl, hrel⟩ := h'
  exact ⟨memory', a', proof', core', rfl, hrel⟩

lemma Ran.reliable (h : Ran keccak256 m m') : m'.state.memory.Reliable keccak256 := by
  obtain ⟨memory, a, proof, core, rfl, hrel⟩ := h
  exact hrel

lemma Ran.healthy (h : Ran keccak256 m m') (hm : m.Healthy keccak256 preimages) :
    m'.Healthy keccak256 preimages := by
  obtain ⟨memory, a, proof, core, rfl, hrel⟩ := h
  exact ⟨hrel, hm.remembers⟩

lemma Fetched.ran (h : Fetched keccak256 m addr v m') : Ran keccak256 m m' := by
  obtain ⟨memory, a, proof, rfl⟩ := h.accessed
  exact ⟨memory, a, proof, m.core, rfl, h.reliable⟩

section

variable (hm : m.state.memory.Reliable keccak256)
include hm

lemma memoryFetch_cases {insn : U32}
    (h : m.memoryFetch keccak256 insn opcode rs rdReg = .ok (rs', mem, storeAddr, rdReg', m')) :
    (¬ 0x20 ≤ opcode ∧ (rs', mem, storeAddr, rdReg', m') = (rs, 0, 0xFFFFFFFF, rdReg, m)) ∨
      (0x20 ≤ opcode ∧ rs' = rs + signExtend (insn &&& 0xFFFF) 16 ∧
        Fetched keccak256 m (rs' &&& 0xFFFFFFFC) mem m' ∧
        (storeAddr, rdReg') =
          if 0x28 ≤ opcode ∧ opcode ≠ 0x30 then (rs' &&& 0xFFFFFFFC, 0) else (0xFFFFFFFF, rdReg)) := by
  unfold memoryFetch at h
  split at h
  case isTrue hop =>
    obtain ⟨m₁, htrack, h⟩ := bind_eq_ok.mp h
    obtain ⟨⟨v, m₂⟩, hget, h⟩ := bind_eq_ok.mp h
    have hfet := fetched hm htrack hget
    dsimp only at h
    split at h
    case isTrue hstore =>
      cases h
      exact .inr ⟨hop, rfl, hfet, (if_pos hstore).symm⟩
    case isFalse hload =>
      cases h
      exact .inr ⟨hop, rfl, hfet, (if_neg hload).symm⟩
  case isFalse hop => exact .inl ⟨hop, (Except.ok.inj h).symm⟩

lemma ran_memoryFetch {insn : U32}
    (h : m.memoryFetch keccak256 insn opcode rs rdReg = .ok (rs', mem, storeAddr, rdReg', m')) :
    Ran keccak256 m m' := by
  rcases memoryFetch_cases hm h with ⟨-, heq⟩ | ⟨-, -, hfet, -⟩
  · obtain rfl : m' = m := congrArg (fun r => r.2.2.2.2) heq
    exact Ran.withCore hm m'.core
  · exact hfet.ran

lemma store_cases (h : m.store keccak256 storeAddr val = .ok m') :
    (storeAddr = 0xFFFFFFFF ∧ m' = m) ∨
      (storeAddr ≠ 0xFFFFFFFF ∧ storeAddr.toNat % 4 = 0 ∧ ∃ memory a proof,
        m' = m.accessed memory a proof ∧ memory.Reliable keccak256 ∧
        memory.content = writeAt m.state.memory.content storeAddr.toNat (beBytes 4 val.toNat) ∧
        (m.lastMemAccess = storeAddr → proof = m.memProof)) := by
  unfold store at h
  split at h
  case isTrue hne =>
    obtain ⟨m₁, htrack, hset⟩ := bind_eq_ok.mp h
    have hsame : m.lastMemAccess = storeAddr → m₁ = m := by
      intro hlast
      unfold trackMemAccess at htrack
      rw [if_neg (fun hno => hno.2 hlast)] at htrack
      exact (Except.pure_eq_ok.mp htrack).symm
    obtain ⟨memory, a, proof, rfl, hrel, hcont, -⟩ := trackMemAccess_spec hm htrack
    obtain ⟨memory', rfl, hreliable', halign, hwr⟩ := setMemory_ok hrel hset
    have hwrite : memory'.content =
        writeAt memory.content storeAddr.toNat (beBytes 4 val.toNat) := hwr
    rw [hcont] at hwrite
    exact .inr ⟨hne, halign, memory', a, proof, rfl, hreliable', hwrite,
      fun hlast => congrArg memProof (hsame hlast)⟩
  case isFalse heq => exact .inl ⟨not_not.mp heq, (Except.ok.inj h).symm⟩

lemma ran_store (h : m.store keccak256 storeAddr val = .ok m') : Ran keccak256 m m' := by
  rcases store_cases hm h with ⟨-, rfl⟩ | ⟨-, -, memory, a, proof, rfl, hrel, -⟩
  · exact Ran.withCore hm m'.core
  · exact ⟨memory, a, proof, m.core, rfl, hrel⟩

lemma ran_withCore {x : Except Panic Core} (h : (do pure (m.withCore (← x))) = Except.ok m') :
    Ran keccak256 m m' ∧ m'.memProof = m.memProof := by
  obtain ⟨core, -, hok⟩ := bind_eq_ok.mp h
  cases hok
  exact ⟨Ran.withCore hm core, rfl⟩

lemma ran_writeBack {rtReg rt : U32}
    (h : m.writeBack keccak256 opcode fn rtReg rs rt val storeAddr rdReg = .ok m') :
    Ran keccak256 m m' ∧
      ((storeAddr ≠ 0xFFFFFFFF → m.lastMemAccess = storeAddr) → m'.memProof = m.memProof) := by
  have hcore : ∀ {x : Except Panic Core}, (do pure (m.withCore (← x))) = Except.ok m' →
      Ran keccak256 m m' ∧
        ((storeAddr ≠ 0xFFFFFFFF → m.lastMemAccess = storeAddr) → m'.memProof = m.memProof) :=
    fun hx => ⟨(ran_withCore hm hx).1, fun _ => (ran_withCore hm hx).2⟩
  unfold writeBack at h
  dsimp only at h
  split at h
  · exact hcore h
  split at h
  · exact hcore h
  split at h
  · exact hcore h
  split at h
  · exact hcore h
  obtain ⟨m₁, hstore, hrd⟩ := bind_eq_ok.mp h
  have hran := ran_store (m := m.withCore _) hm hstore
  have hlast := ran_withCore hran.reliable hrd
  refine ⟨((Ran.withCore hm _).trans hran).trans hlast.1, ?_⟩
  intro htrk
  rw [hlast.2]
  rcases store_cases (m := m.withCore _) hm hstore with
    ⟨-, rfl⟩ | ⟨hne, -, memory, a, proof, rfl, -, -, hproof⟩
  · rfl
  · exact hproof (htrk hne)

lemma ran_execMipsCoreStepLogic {insn : U32}
    (h : m.execMipsCoreStepLogic keccak256 insn opcode fn = .ok m') : Ran keccak256 m m' := by
  unfold execMipsCoreStepLogic at h
  dsimp only at h
  split at h
  · exact (ran_withCore hm h).1
  split at h
  · exact (ran_withCore hm h).1
  obtain ⟨⟨rs', mem, storeAddr, rdReg', m₁⟩, hfetch, h⟩ := bind_eq_ok.mp h
  obtain ⟨val, -, h⟩ := bind_eq_ok.mp h
  have hran := ran_memoryFetch hm hfetch
  exact hran.trans (ran_writeBack hran.reliable h).1

end

/-! ## System calls -/

/-- The preimage with its length that the machine has after it was asked for a key. -/
structure Recalled (preimages : Hash → Option Bytes) (m : InstrumentedState) (key : Hash)
    (offset : U32) (preimage : Bytes) : Prop where
  within : offset.toNat ≤ preimage.length
  known : (preimage = [] ∧ m.lastPreimage = [] ∧ key = Hash.zero) ∨
    ∃ data, preimages key = some data ∧ preimage = lengthPrefixed data

lemma readPreimage_ok {dat : Hash} {n : U32} (hm : m.Remembers preimages)
    (h : m.readPreimage preimages key offset = .ok (dat, n, m')) :
    ∃ preimage, Recalled preimages m key offset preimage ∧
      m' = { m with lastPreimageKey := key, lastPreimage := preimage,
                    lastPreimageOffset := offset } ∧
      dat = Preimage.Hash.ofBytes (preimage.drop offset.toNat) ∧
      n = BitVec.ofNat 32 (min 32 (preimage.length - offset.toNat)) := by
  obtain ⟨m₁, hasked, h⟩ := bind_eq_ok.mp h
  obtain ⟨_, hin, h⟩ := bind_eq_ok.mp h
  have hle := not_lt.mp (revertIf_eq_ok.mp hin)
  obtain ⟨rfl, rfl, rfl⟩ : _ ∧ _ ∧ _ := by simpa using Except.pure_eq_ok.mp h
  unfold askPreimage at hasked
  split at hasked
  case isTrue hne =>
    cases hdata : preimages key with
    | none =>
      rw [hdata] at hasked
      cases hasked
    | some data =>
      rw [hdata] at hasked
      cases hasked
      exact ⟨lengthPrefixed data, ⟨hle, .inr ⟨data, hdata, rfl⟩⟩, rfl, rfl, rfl⟩
  case isFalse heq =>
    cases hasked
    obtain rfl := not_not.mp heq
    refine ⟨m.lastPreimage, ⟨hle, ?_⟩, rfl, rfl, rfl⟩
    rcases hm with ⟨hnil, hzero⟩ | ⟨data, hdata, hlast⟩
    · exact .inl ⟨hnil, hnil, hzero⟩
    · exact .inr ⟨data, hdata, hlast⟩

/-- The number of bytes that `handleSysRead` reads of `datLen` bytes. -/
def shorten (a1 a2 datLen : U32) : U32 :=
  let space := 4 - (a1 &&& 3)
  let datLen := if space < datLen then space else datLen
  if a2 < datLen then a2 else datLen

/-- The outcome of reading from the preimage oracle. -/
structure SysRead (keccak256 : Bytes → Hash) (preimages : Hash → Option Bytes)
    (m : InstrumentedState) (a1 a2 mem : U32) (preimage : Bytes) (datLen : U32)
    (m' : InstrumentedState) : Prop where
  recalled : Recalled preimages m m.state.preimageKey m.state.preimageOffset preimage
  datLen_eq : datLen = shorten a1 a2
    (BitVec.ofNat 32 (min 32 (preimage.length - m.state.preimageOffset.toNat)))
  reliable : m'.state.memory.Reliable keccak256
  content : m'.state.memory.content =
    writeAt m.state.memory.content (a1 &&& 0xFFFFFFFC).toNat (beBytes 4 (uint32
      ((be32 mem).take (a1 &&& 3).toNat ++
        (Preimage.Hash.ofBytes (preimage.drop m.state.preimageOffset.toNat)).1.take
          datLen.toNat ++
        (be32 mem).drop ((a1 &&& 3).toNat + datLen.toNat))).toNat)

lemma handleSysRead_cases (hm : m.Healthy keccak256 preimages)
    (h : m.handleSysRead keccak256 preimages a0 a1 a2 = .ok (v0, v1, offset, m')) :
    (a0 ≠ 5 ∧ m' = m ∧ offset = m.state.preimageOffset ∧
        (v0, v1) = if a0 = 0 then (0, 0) else if a0 = 3 then (a2, 0) else (0xFFFFFFFF, 9)) ∨
      (a0 = 5 ∧ ∃ mem preimage m₁ memory, Fetched keccak256 m (a1 &&& 0xFFFFFFFC) mem m₁ ∧
        SysRead keccak256 preimages m a1 a2 mem preimage v0 m' ∧ v1 = 0 ∧
        offset = m.state.preimageOffset + v0 ∧
        m' = { m₁ with lastPreimageKey := m.state.preimageKey, lastPreimage := preimage,
                       lastPreimageOffset := m.state.preimageOffset }.withMemory memory) := by
  unfold handleSysRead at h
  split at h
  case isTrue hzero =>
    cases h
    subst hzero
    exact .inl ⟨by decide, rfl, rfl, rfl⟩
  case isFalse hzero =>
    split at h
    case isTrue hfive =>
      obtain ⟨m₁, htrack, h⟩ := bind_eq_ok.mp h
      obtain ⟨⟨mem, m₂⟩, hget, h⟩ := bind_eq_ok.mp h
      have hfet := fetched hm.memory htrack hget
      obtain ⟨memory₂, a, proof, rfl⟩ := hfet.accessed
      have hrem : (m.accessed memory₂ a proof).Remembers preimages := hm.remembers
      obtain ⟨⟨dat, n, m₃⟩, hread, h⟩ := bind_eq_ok.mp h
      obtain ⟨preimage, hrec, rfl, rfl, rfl⟩ := readPreimage_ok hrem hread
      obtain ⟨m₄, hset, h⟩ := bind_eq_ok.mp h
      obtain ⟨memory, rfl, hrel, -, hcont⟩ := setMemory_ok (by exact hfet.reliable) hset
      cases h
      refine .inr ⟨hfive, mem, preimage, _, memory, hfet,
        ⟨⟨hrec.within, hrec.known⟩, rfl, hrel, ?_⟩, rfl, rfl, rfl⟩
      have hsame := hfet.content
      exact hcont.trans (congrArg (fun f => writeAt f _ _) hsame)
    case isFalse hfive =>
      refine .inl ⟨hfive, ?_⟩
      rw [if_neg hzero]
      split at h
      case isTrue hthree =>
        cases h
        exact ⟨rfl, rfl, (if_pos hthree).symm⟩
      case isFalse hthree =>
        cases h
        exact ⟨rfl, rfl, (if_neg hthree).symm⟩

lemma healthy_handleSysRead (hm : m.Healthy keccak256 preimages)
    (h : m.handleSysRead keccak256 preimages a0 a1 a2 = .ok (v0, v1, offset, m')) :
    m'.Healthy keccak256 preimages := by
  rcases handleSysRead_cases hm h with
    ⟨-, rfl, -⟩ | ⟨-, mem, preimage, m₁, memory, -, hread, -, -, rfl⟩
  · exact hm
  · refine ⟨hread.reliable, ?_⟩
    rcases hread.recalled.known with ⟨rfl, -, hzero⟩ | ⟨data, hdata, rfl⟩
    · exact .inl ⟨rfl, hzero⟩
    · exact .inr ⟨data, hdata, rfl⟩

/-- Reading a range of memory only changes the lookup cache. -/
theorem reliable_readMemoryRange {reads : ℕ} {count : U32} {memory' : Memory} {bs : Bytes}
    (hm : memory.Reliable keccak256)
    (h : readMemoryRange bufSize reads addr count memory = .ok (bs, memory')) :
    memory'.Reliable keccak256 ∧ memory'.content = memory.content := by
  induction reads generalizing addr count memory bs with
  | zero =>
    cases h
    exact ⟨hm, rfl⟩
  | succ reads ih =>
    unfold readMemoryRange at h
    split at h
    case isTrue =>
      cases h
      exact ⟨hm, rfl⟩
    case isFalse =>
      dsimp only at h
      generalize (if pageIndex addr = pageIndex (addr + count) then pageAddr (addr + count)
        else pageSize) = last at h
      rcases pageLookup_outcome hm.inv (pageIndex_lt addr) with
        ⟨p, memory₁, hlook, hfound⟩ | ⟨hlook, -⟩
      · rw [hlook] at h
        dsimp only at h
        split at h
        · cases h
        · obtain ⟨⟨rest, memory₂⟩, hrest, h⟩ := bind_eq_ok.mp h
          cases h
          obtain ⟨hrel, hcont⟩ := ih ⟨hfound.inv, (hfound.coherent hm.coherent).1⟩ hrest
          exact ⟨hrel, hcont.trans hfound.content⟩
      · rw [hlook] at h
        obtain ⟨⟨rest, memory₂⟩, hrest, h⟩ := bind_eq_ok.mp h
        cases h
        exact ih hm hrest

/-- The number of bytes that `handleSysWrite` writes to the key. -/
def shortenKey (a1 a2 : U32) : U32 :=
  let space := 4 - (a1 &&& 3)
  if space < a2 then space else a2

lemma handleSysWrite_cases (hm : m.state.memory.Reliable keccak256)
    (h : m.handleSysWrite keccak256 bufSize a0 a1 a2 = .ok (v0, v1, lastHint, key, offset, m')) :
    (a0 ≠ 6 ∧ key = m.state.preimageKey ∧ offset = m.state.preimageOffset ∧
        (v0, v1) = (if a0 = 1 ∨ a0 = 2 ∨ a0 = 4 then (a2, 0) else (0xFFFFFFFF, 9)) ∧
        ∃ memory, m' = m.withMemory memory ∧ memory.Reliable keccak256 ∧
          memory.content = m.state.memory.content) ∨
      (a0 = 6 ∧ offset = 0 ∧ v0 = shortenKey a1 a2 ∧ v1 = 0 ∧
        ∃ mem, Fetched keccak256 m (a1 &&& 0xFFFFFFFC) mem m' ∧
          key = Preimage.Hash.ofBytes (m.state.preimageKey.1.drop v0.toNat ++
            ((be32 mem).drop (a1 &&& 3).toNat).take v0.toNat)) := by
  unfold handleSysWrite at h
  split at h
  case isTrue hout =>
    obtain ⟨⟨_, memory⟩, hread, h⟩ := bind_eq_ok.mp h
    cases h
    obtain ⟨hrel, hcont⟩ := reliable_readMemoryRange hm hread
    refine .inl ⟨?_, rfl, rfl, (if_pos (hout.imp id .inl)).symm, memory, rfl, hrel, hcont⟩
    rcases hout with rfl | rfl <;> decide
  case isFalse hout =>
    split at h
    case isTrue hhint =>
      subst hhint
      obtain ⟨⟨_, memory⟩, hread, h⟩ := bind_eq_ok.mp h
      obtain ⟨_, -, h⟩ := bind_eq_ok.mp h
      cases h
      obtain ⟨hrel, hcont⟩ := reliable_readMemoryRange hm hread
      exact .inl ⟨by decide, rfl, rfl, rfl, memory, rfl, hrel, hcont⟩
    case isFalse hhint =>
      split at h
      case isTrue hkey =>
        obtain ⟨m₁, htrack, h⟩ := bind_eq_ok.mp h
        obtain ⟨⟨mem, m₂⟩, hget, h⟩ := bind_eq_ok.mp h
        have hfet := fetched hm htrack hget
        cases h
        exact .inr ⟨hkey, rfl, rfl, rfl, mem, hfet, rfl⟩
      case isFalse hkey =>
        cases h
        have hother : ¬ (a0 = 1 ∨ a0 = 2 ∨ a0 = 4) := by
          rintro (hone | htwo | hfour)
          · exact hout (.inl hone)
          · exact hout (.inr htwo)
          · exact hhint hfour
        exact .inl ⟨hkey, rfl, rfl, (if_neg hother).symm, m.state.memory, rfl, hm, rfl⟩

lemma handleSysRead_state (hm : m.Healthy keccak256 preimages)
    (h : m.handleSysRead keccak256 preimages a0 a1 a2 = .ok (v0, v1, offset, m')) :
    ∃ memory, m'.state = { m.state with memory } := by
  rcases handleSysRead_cases hm h with
    ⟨-, rfl, -⟩ | ⟨-, mem, preimage, m₁, memory, hfet, -, -, -, rfl⟩
  · exact ⟨m'.state.memory, rfl⟩
  · obtain ⟨memory₁, a, proof, rfl⟩ := hfet.accessed
    exact ⟨memory, rfl⟩

lemma handleSysWrite_state (hm : m.state.memory.Reliable keccak256)
    (h : m.handleSysWrite keccak256 bufSize a0 a1 a2 = .ok (v0, v1, lastHint, key, offset, m')) :
    ∃ memory, m'.state = { m.state with memory } ∧ memory.content = m.state.memory.content := by
  rcases handleSysWrite_cases hm h with
    ⟨-, -, -, -, memory, rfl, -, hcont⟩ | ⟨-, -, -, -, mem, hfet, -⟩
  · exact ⟨memory, rfl, hcont⟩
  · have hcont := hfet.content
    obtain ⟨memory, a, proof, rfl⟩ := hfet.accessed
    exact ⟨memory, rfl, hcont⟩

lemma healthy_handleSyscall (hm : m.Healthy keccak256 preimages)
    (h : m.handleSyscall keccak256 preimages bufSize = .ok m') :
    m'.Healthy keccak256 preimages := by
  unfold handleSyscall at h
  dsimp only at h
  iterate 4
    split at h
    · cases h
      exact ⟨hm.memory, hm.remembers⟩
  split at h
  · obtain ⟨⟨v0, v1, offset, m₁⟩, hread, h⟩ := bind_eq_ok.mp h
    cases h
    have hm₁ := healthy_handleSysRead hm hread
    exact ⟨hm₁.memory, hm₁.remembers⟩
  split at h
  · obtain ⟨⟨v0, v1, lastHint, key, offset, m₁⟩, hwrite, h⟩ := bind_eq_ok.mp h
    cases h
    rcases handleSysWrite_cases hm.memory hwrite with
      ⟨-, -, -, -, memory, rfl, hrel, -⟩ | ⟨-, -, -, -, mem, hfet, -⟩
    · exact ⟨hrel, hm.remembers⟩
    · have hm₁ := hfet.ran.healthy hm
      exact ⟨hm₁.memory, hm₁.remembers⟩
  split at h <;> cases h <;> exact ⟨hm.memory, hm.remembers⟩

/-! ## Steps -/

/-- The instruction that the machine is about to execute. -/
def insn (m : InstrumentedState) : U32 :=
  uint32 (readAt m.state.memory.content m.state.cpu.pc.toNat 4)

/-- The machine after the instruction fetch. -/
def counted (m : InstrumentedState) (memory : Memory) : InstrumentedState :=
  { m with state := { m.state with memory, step := m.state.step + 1 } }

lemma mipsStep_cases (hm : m.state.memory.Reliable keccak256)
    (h : m.mipsStep keccak256 preimages bufSize = .ok m') :
    (m.state.exited = true ∧ m' = m) ∨
      (m.state.exited = false ∧ m.state.cpu.pc.toNat % 4 = 0 ∧ ∃ memory,
        memory.Reliable keccak256 ∧ memory.content = m.state.memory.content ∧
        (if m.insn >>> 26 = 0 ∧ m.insn &&& 0x3f = 0xC then
          (m.counted memory).handleSyscall keccak256 preimages bufSize
        else (m.counted memory).execMipsCoreStepLogic keccak256 m.insn (m.insn >>> 26)
          (m.insn &&& 0x3f)) = .ok m') := by
  unfold mipsStep at h
  split at h
  case isTrue hexit => exact .inl ⟨hexit, (Except.ok.inj h).symm⟩
  case isFalse hexit =>
    obtain ⟨⟨v, m₁⟩, hget, h⟩ := bind_eq_ok.mp h
    obtain ⟨memory, rfl, hrel, hcont, halign, rfl⟩ := getMemory_ok (by exact hm) hget
    exact .inr ⟨Bool.eq_false_iff.mpr hexit, halign, memory, hrel, hcont, h⟩

lemma healthy_mipsStep (hm : m.Healthy keccak256 preimages)
    (h : m.mipsStep keccak256 preimages bufSize = .ok m') : m'.Healthy keccak256 preimages := by
  rcases mipsStep_cases hm.memory h with ⟨-, rfl⟩ | ⟨-, -, memory, hrel, -, hrun⟩
  · exact hm
  · have hcnt : (m.counted memory).Healthy keccak256 preimages := ⟨hrel, hm.remembers⟩
    split at hrun
    · exact healthy_handleSyscall hcnt hrun
    · exact (ran_execMipsCoreStepLogic hrel hrun).healthy hcnt

/-- A step with a proof: the witness is made of the state before the step, of the proof for the
instruction, and of the memory proof that the step leaves. -/
theorem step_proof (hm : m.state.memory.Reliable keccak256)
    (h : m.step keccak256 preimages bufSize true = .ok (wit, m')) :
    ∃ w memory memory', wit = some w ∧ memory.Reliable keccak256 ∧
      memory.content = m.state.memory.content ∧ memory'.Reliable keccak256 ∧
      memory'.content = m.state.memory.content ∧
      w.state = ({ m.state with memory }.encodeWitness keccak256).1 ∧
      w.memProof = (m.state.memory.merkleProof keccak256 m.state.cpu.pc).1 ++ m'.memProof ∧
      ((m.reset true).withMemory memory').mipsStep keccak256 preimages bufSize = .ok m' := by
  have hproof := reliable_merkleProof hm m.state.cpu.pc
  have hroot := reliable_merkleRoot hproof.1
  unfold step at h
  rw [if_pos rfl] at h
  obtain ⟨m₁, hstep, h⟩ := bind_eq_ok.mp h
  cases h
  refine ⟨_, _, _, rfl, hproof.1, hproof.2, hroot.1, hroot.2.trans hproof.2, rfl, rfl, ?_⟩
  dsimp only [withMemory, State.encodeWitness] at hstep ⊢
  exact hstep

lemma healthy_step {proof : Bool} (hm : m.Healthy keccak256 preimages)
    (h : m.step keccak256 preimages bufSize proof = .ok (wit, m')) :
    m'.Healthy keccak256 preimages := by
  cases proof with
  | true =>
    obtain ⟨_, _, memory, -, -, -, hrel, -, -, -, hstep⟩ := step_proof hm.memory h
    refine healthy_mipsStep (m := (m.reset true).withMemory memory) ⟨hrel, ?_⟩ hstep
    exact hm.remembers
  | false =>
    obtain ⟨m₁, hstep, hok⟩ := bind_eq_ok.mp h
    cases hok
    exact healthy_mipsStep (m := m.reset false) ⟨hm.memory, hm.remembers⟩ hstep

lemma healthy_run {proofs : List Bool} (hm : m.Healthy keccak256 preimages) :
    (Run.runAll (fun proof m => (step keccak256 preimages bufSize m proof).map Prod.snd) proofs
      m).Healthy keccak256 preimages := by
  refine Run.runAll_inv ?_ hm
  intro proof _ m m' hm h
  obtain ⟨⟨wit, m₁⟩, hstep, rfl⟩ := Except.map_eq_ok.mp h
  exact healthy_step hm hstep

/-! ## Register zero -/

section RegisterZero

variable {core core' : Core}

end RegisterZero

end InstrumentedState

end FightNight.Cannon
