import FightNight.Cannon.Instructions
import FightNight.Cannon.MemoryProof

/-!
# The contract `MIPS`

`packages/contracts-bedrock/src/cannon/MIPS.sol` with the libraries `MIPSInstructions`,
`MIPSSyscalls` and `PreimageKeyLib`: one step of the virtual machine, from a witness of the state
and proofs for the memory in calldata.

The checks of the memory offsets of the state always pass; what is left are those of the calldata
offsets.  Where the code is written in assembly, the model calculates with words of 256 bits.
`sender` is `caller()`.
-/

namespace FightNight.Cannon

open FightNight.Except
open Preimage (Hash Hash.zero Oracle)
open Preimage.Oracle (calldataload)

/-! ## Instructions -/

namespace MIPSInstructions

/-- `signExtend`.  The literals are of type `uint256`. -/
def signExtend (dat idx : U32) : U32 :=
  let isSigned := dat >>> (idx - 1) ≠ 0
  let signed := ((1 : BitVec 256) <<< (32 - idx) - 1) <<< idx
  let mask := (1 : BitVec 256) <<< idx - 1
  (dat.setWidth 256 &&& mask ||| (if isSigned then signed else 0)).setWidth 32

/-- The `switch` of `executeMipsInstruction`. -/
def specialFun (opcode fn : U32) : U32 :=
  if opcode = 0x8 then 0x20
  else if opcode = 0x9 then 0x21
  else if opcode = 0xA then 0x2A
  else if opcode = 0xB then 0x2B
  else if opcode = 0xC then 0x24
  else if opcode = 0xD then 0x25
  else if opcode = 0xE then 0x26
  else fn

/-- The first part of `executeMipsInstruction`. -/
def executeSpecial (insn fn rs rt : U32) : Except MipsRevert U32 :=
  if fn = 0x00 then .ok (rt <<< ((insn >>> 6) &&& 0x1F))
  else if fn = 0x02 then .ok (rt >>> ((insn >>> 6) &&& 0x1F))
  else if fn = 0x03 then
    let shamt := (insn >>> 6) &&& 0x1F
    .ok (signExtend (rt >>> shamt) (32 - shamt))
  else if fn = 0x04 then .ok (rt <<< (rs &&& 0x1F))
  else if fn = 0x6 then .ok (rt >>> (rs &&& 0x1F))
  else if fn = 0x07 then .ok (signExtend (rt >>> rs) (32 - rs))
  else if fn = 0x08 then .ok rs
  else if fn = 0x09 then .ok rs
  else if fn = 0x0a then .ok rs
  else if fn = 0x0b then .ok rs
  else if fn = 0x0c then .ok rs
  else if fn = 0x0f then .ok rs
  else if fn = 0x10 then .ok rs
  else if fn = 0x11 then .ok rs
  else if fn = 0x12 then .ok rs
  else if fn = 0x13 then .ok rs
  else if fn = 0x18 then .ok rs
  else if fn = 0x19 then .ok rs
  else if fn = 0x1a then .ok rs
  else if fn = 0x1b then .ok rs
  else if fn = 0x20 then .ok (rs + rt)
  else if fn = 0x21 then .ok (rs + rt)
  else if fn = 0x22 then .ok (rs - rt)
  else if fn = 0x23 then .ok (rs - rt)
  else if fn = 0x24 then .ok (rs &&& rt)
  else if fn = 0x25 then .ok (rs ||| rt)
  else if fn = 0x26 then .ok (rs ^^^ rt)
  else if fn = 0x27 then .ok (~~~(rs ||| rt))
  else if fn = 0x2a then .ok (if rs.toInt < rt.toInt then 1 else 0)
  else if fn = 0x2b then .ok (if rs < rt then 1 else 0)
  else .error (.text "invalid instruction")

/-- `executeMipsInstruction`.  The literals that are shifted are of type `uint256`. -/
def executeMipsInstruction (insn opcode fn rs rt mem : U32) : Except MipsRevert U32 :=
  if opcode = 0 ∨ (8 ≤ opcode ∧ opcode < 0xF) then
    executeSpecial insn (specialFun opcode fn) rs rt
  else if opcode = 0x1C then
    if fn = 0x2 then .ok (BitVec.ofInt 32 (rs.toInt * rt.toInt))
    else if fn = 0x20 ∨ fn = 0x21 then
      .ok (leadingOnes 32 (if fn = 0x20 then ~~~rs else rs) 0)
    else .error (.text "invalid instruction")
  else if opcode = 0x0F then .ok (rt <<< 16)
  else if opcode = 0x20 then .ok (signExtend ((mem >>> (24 - (rs &&& 3) * 8)) &&& 0xFF) 8)
  else if opcode = 0x21 then .ok (signExtend ((mem >>> (16 - (rs &&& 2) * 8)) &&& 0xFFFF) 16)
  else if opcode = 0x22 then
    let val := mem <<< ((rs &&& 3) * 8)
    let mask := (0xFFFFFFFF : U32) <<< ((rs &&& 3) * 8)
    .ok ((rt &&& ~~~mask) ||| val)
  else if opcode = 0x23 then .ok mem
  else if opcode = 0x24 then .ok ((mem >>> (24 - (rs &&& 3) * 8)) &&& 0xFF)
  else if opcode = 0x25 then .ok ((mem >>> (16 - (rs &&& 2) * 8)) &&& 0xFFFF)
  else if opcode = 0x26 then
    let val := mem >>> (24 - (rs &&& 3) * 8)
    let mask := (0xFFFFFFFF : U32) >>> (24 - (rs &&& 3) * 8)
    .ok ((rt &&& ~~~mask) ||| val)
  else if opcode = 0x28 then
    let val := (rt &&& 0xFF) <<< (24 - (rs &&& 3) * 8)
    let mask := 0xFFFFFFFF ^^^ ((0xFF : BitVec 256) <<< (24 - (rs &&& 3) * 8)).setWidth 32
    .ok ((mem &&& mask) ||| val)
  else if opcode = 0x29 then
    let val := (rt &&& 0xFFFF) <<< (16 - (rs &&& 2) * 8)
    let mask := 0xFFFFFFFF ^^^ ((0xFFFF : BitVec 256) <<< (16 - (rs &&& 2) * 8)).setWidth 32
    .ok ((mem &&& mask) ||| val)
  else if opcode = 0x2a then
    let val := rt >>> ((rs &&& 3) * 8)
    let mask := (0xFFFFFFFF : U32) >>> ((rs &&& 3) * 8)
    .ok ((mem &&& ~~~mask) ||| val)
  else if opcode = 0x2b then .ok rt
  else if opcode = 0x2e then
    let val := rt <<< (24 - (rs &&& 3) * 8)
    let mask := (0xFFFFFFFF : U32) <<< (24 - (rs &&& 3) * 8)
    .ok ((mem &&& ~~~mask) ||| val)
  else if opcode = 0x30 then .ok mem
  else if opcode = 0x38 then .ok rt
  else .error (.text "invalid instruction")

/-- `shouldBranch` of `handleBranch`. -/
def shouldBranch (registers : Registers) (opcode insn rtReg rs : U32) : Bool :=
  if opcode = 4 ∨ opcode = 5 then
    let rt := registers.get rtReg
    decide ((rs = rt ∧ opcode = 4) ∨ (rs ≠ rt ∧ opcode = 5))
  else if opcode = 6 then decide (rs.toInt ≤ 0)
  else if opcode = 7 then decide (rs.toInt > 0)
  else if opcode = 1 then
    let rtv := (insn >>> 16) &&& 0x1F
    if rtv = 0 then decide (rs.toInt < 0) else if rtv = 1 then decide (rs.toInt ≥ 0) else false
  else false

def handleBranch (core : Core) (opcode insn rtReg rs : U32) : Except MipsRevert Core := do
  revertIf (core.cpu.nextPC ≠ core.cpu.pc + 4) (.text "branch in delay slot")
  if shouldBranch core.registers opcode insn rtReg rs then
    let dest := core.cpu.pc + (4 : U32) + (signExtend (insn &&& 0xFFFF) 16 <<< 2)
    pure { core with cpu := core.cpu.advance dest }
  else pure { core with cpu := core.cpu.advance (core.cpu.nextPC + 4) }

/-- The first part of `handleHiLo`: the scalars after it and the value to store. -/
def executeHiLo (cpu : CpuScalars) (fn rs rt : U32) : Except MipsRevert (CpuScalars × U32) :=
  if fn = 0x10 then .ok (cpu, cpu.hi)
  else if fn = 0x11 then .ok ({ cpu with hi := rs }, 0)
  else if fn = 0x12 then .ok (cpu, cpu.lo)
  else if fn = 0x13 then .ok ({ cpu with lo := rs }, 0)
  else if fn = 0x18 then
    let acc := BitVec.ofInt 64 (rs.toInt * rt.toInt)
    .ok ({ cpu with hi := (acc >>> 32).setWidth 32, lo := acc.setWidth 32 }, 0)
  else if fn = 0x19 then
    let acc := rs.setWidth 64 * rt.setWidth 64
    .ok ({ cpu with hi := (acc >>> 32).setWidth 32, lo := acc.setWidth 32 }, 0)
  else if fn = 0x1a then
    if rt.toInt = 0 then .error (.text "MIPS: division by zero")
    else .ok ({ cpu with hi := BitVec.ofInt 32 (rs.toInt.tmod rt.toInt),
                         lo := BitVec.ofInt 32 (rs.toInt.tdiv rt.toInt) }, 0)
  else if fn = 0x1b then
    if rt = 0 then .error (.text "MIPS: division by zero")
    else .ok ({ cpu with hi := rs % rt, lo := rs / rt }, 0)
  else .ok (cpu, 0)

def handleHiLo (core : Core) (fn rs rt storeReg : U32) : Except MipsRevert Core := do
  let (cpu, val) ← executeHiLo core.cpu fn rs rt
  pure { cpu := cpu.advance (cpu.nextPC + 4)
         registers := if storeReg ≠ 0 then core.registers.set storeReg val else core.registers }

def handleJump (core : Core) (linkReg dest : U32) : Except MipsRevert Core := do
  revertIf (core.cpu.nextPC ≠ core.cpu.pc + 4) (.text "jump in delay slot")
  pure { cpu := core.cpu.advance dest
         registers := if linkReg ≠ 0 then core.registers.set linkReg (core.cpu.pc + 8)
                      else core.registers }

def handleRd (core : Core) (storeReg val : U32) (conditional : Bool) : Except MipsRevert Core := do
  revertIf (¬ storeReg < 32) (.text "valid register")
  pure { cpu := core.cpu.advance (core.cpu.nextPC + 4)
         registers := if storeReg ≠ 0 ∧ conditional then core.registers.set storeReg val
                      else core.registers }

/-- The register fetch of `execMipsCoreStepLogic`. -/
def registerFetch (registers : Registers) (insn opcode : U32) : Operands :=
  let rtReg := (insn >>> 16) &&& 0x1F
  let rs := registers.get ((insn >>> 21) &&& 0x1F)
  if opcode = 0 ∨ opcode = 0x1c then ⟨rs, registers.get rtReg, (insn >>> 11) &&& 0x1F⟩
  else if opcode < 0x20 then
    if opcode = 0xC ∨ opcode = 0xD ∨ opcode = 0xe then ⟨rs, insn &&& 0xFFFF, rtReg⟩
    else ⟨rs, signExtend (insn &&& 0xFFFF) 16, rtReg⟩
  else if 0x28 ≤ opcode ∨ opcode = 0x22 ∨ opcode = 0x26 then ⟨rs, registers.get rtReg, rtReg⟩
  else ⟨rs, 0, rtReg⟩

variable (keccak256 : Bytes → Hash) (calldata : Bytes)

/-- The memory fetch of `execMipsCoreStepLogic`: `rs`, `mem`, `storeAddr` and `rdReg` after it. -/
def memoryFetch (memRoot : Hash) (memProofOffset : ℕ) (insn opcode rs rdReg : U32) :
    Except MipsRevert (U32 × U32 × U32 × U32) :=
  if 0x20 ≤ opcode then do
    let rs := rs + signExtend (insn &&& 0xFFFF) 16
    let addr := rs &&& 0xFFFFFFFC
    let mem ← readMem keccak256 calldata memRoot addr memProofOffset
    if 0x28 ≤ opcode ∧ opcode ≠ 0x30 then pure (rs, mem, addr, 0)
    else pure (rs, mem, 0xFFFFFFFF, rdReg)
  else .ok (rs, 0, 0xFFFFFFFF, rdReg)

/-- The memory write of `execMipsCoreStepLogic`. -/
def store (memRoot : Hash) (memProofOffset : ℕ) (storeAddr val : U32) : Except MipsRevert Hash :=
  if storeAddr ≠ 0xFFFFFFFF then writeMem keccak256 calldata storeAddr memProofOffset val
  else .ok memRoot

/-- The end of `execMipsCoreStepLogic`, after the ALU. -/
def writeBack (core : Core) (memRoot : Hash) (memProofOffset : ℕ)
    (opcode fn rtReg rs rt val storeAddr rdReg : U32) : Except MipsRevert (Core × Hash) :=
  let special := opcode = 0 ∧ 8 ≤ fn ∧ fn < 0x1c
  if special ∧ (fn = 8 ∨ fn = 9) then do
    let linkReg := if fn = 8 then 0 else rdReg
    pure (← handleJump core linkReg rs, memRoot)
  else if special ∧ fn = 0xa then do
    pure (← handleRd core rdReg rs (rt = 0), memRoot)
  else if special ∧ fn = 0xb then do
    pure (← handleRd core rdReg rs (rt ≠ 0), memRoot)
  else if special ∧ 0x10 ≤ fn ∧ fn < 0x1c then do
    pure (← handleHiLo core fn rs rt rdReg, memRoot)
  else do
    let registers :=
      if opcode = 0x38 ∧ rtReg ≠ 0 then core.registers.set rtReg 1 else core.registers
    let newMemRoot ← store keccak256 calldata memRoot memProofOffset storeAddr val
    pure (← handleRd ⟨core.cpu, registers⟩ rdReg val true, newMemRoot)

def execMipsCoreStepLogic (core : Core) (memRoot : Hash) (memProofOffset : ℕ)
    (insn opcode fn : U32) : Except MipsRevert (Core × Hash) :=
  let rtReg := (insn >>> 16) &&& 0x1F
  if opcode = 2 ∨ opcode = 3 then do
    let target := (core.cpu.nextPC &&& (0xF0000000 : U32)) ||| ((insn &&& 0x03FFFFFF) <<< 2)
    let linkReg : U32 := if opcode = 2 then 0 else 31
    pure (← handleJump core linkReg target, memRoot)
  else
    let ⟨rs, rt, rdReg⟩ := registerFetch core.registers insn opcode
    if (4 ≤ opcode ∧ opcode < 8) ∨ opcode = 1 then do
      pure (← handleBranch core opcode insn rtReg rs, memRoot)
    else do
      let (rs, mem, storeAddr, rdReg) ←
        memoryFetch keccak256 calldata memRoot memProofOffset insn opcode rs rdReg
      let val ← executeMipsInstruction insn opcode fn rs rt mem
      writeBack keccak256 calldata core memRoot memProofOffset opcode fn rtReg rs rt
        (val &&& 0xFFFFFFFF) storeAddr rdReg

end MIPSInstructions

/-! ## System calls -/

namespace MIPSSyscalls

/-- A word whose first byte is replaced:
`or(and(w, not(shl(248, 0xFF))), shl(248, b))`. -/
def setFirstByte (w b : BitVec 256) : BitVec 256 :=
  (w &&& ~~~((0xFF : BitVec 256) <<< 248)) ||| (b <<< 248)

def localize (keccak256 : Bytes → Hash) (sender : ℕ) (key localContext : Hash) : Hash :=
  ofWord (setFirstByte
    (word (keccak256 (key.1 ++ beBytes 32 sender ++ localContext.1))) 1)

/-- `datLen_` of `PreimageOracle.readPreimage`. -/
def partLength (length offset : ℕ) : Except MipsRevert ℕ := do
  let last ← Checked.add (.panic 0x11) offset 32
  let total ← Checked.add (.panic 0x11) length 8
  if total ≤ last then Checked.sub (.panic 0x11) total offset else pure 32

def readPreimage (oracle : Oracle) (key : Hash) (offset : ℕ) : Except MipsRevert (Hash × ℕ) := do
  revertIf (oracle.preimagePartOk key offset = false) (.text "pre-image must exist")
  let datLen ← partLength (oracle.preimageLengths key) offset
  pure (oracle.preimageParts key offset, datLen)

def handleSysMmap (a0 a1 heap : U32) : U32 × U32 × U32 :=
  let sz := if a1 &&& 4095 ≠ 0 then a1 + (4096 - (a1 &&& 4095)) else a1
  if a0 = 0 then (heap, 0, heap + sz) else (a0, 0, heap)

/-- The assembly of `handleSysRead`: the word with the data in it, and how many bytes of the data
there are in it.  The bits above the lower 32 of the word are zero. -/
def insertData (a1 a2 mem : U32) (dat : Hash) (datLen : BitVec 256) : U32 × BitVec 256 :=
  let alignment := a1.setWidth 256 &&& 3
  let space := 4 - alignment
  let datLen := if space < datLen then space else datLen
  let datLen := if a2.setWidth 256 < datLen then a2.setWidth 256 else datLen
  let dat := word dat >>> (256 - datLen * 8)
  let dat := dat <<< ((4 - datLen - alignment) * 8)
  let mask := (1 : BitVec 256) <<< ((4 - alignment) * 8) - 1
  let suffixMask := (1 : BitVec 256) <<< ((4 - alignment - datLen) * 8) - 1
  let mask := mask &&& ~~~suffixMask
  (((mem.setWidth 256 &&& ~~~mask) ||| dat).setWidth 32, datLen)

/-- The assembly of `handleSysWrite`: the key and `_a2` after it. -/
def insertKey (a1 a2 mem : U32) (key : Hash) : Hash × U32 :=
  let alignment := a1.setWidth 256 &&& 3
  let space := 4 - alignment
  let a2 := if space < a2.setWidth 256 then space else a2.setWidth 256
  let shifted := word key <<< (a2 * 8)
  let mask := (1 : BitVec 256) <<< (a2 * 8) - 1
  let mem := (mem.setWidth 256 >>> ((space - a2) * 8)) &&& mask
  (ofWord (shifted ||| mem), a2.setWidth 32)

section Memory

variable (keccak256 : Bytes → Hash) (calldata : Bytes)

def handleSysRead (oracle : Oracle) (sender : ℕ) (a0 a1 a2 : U32) (preimageKey : Hash)
    (preimageOffset : U32) (localContext : Hash) (proofOffset : ℕ) (memRoot : Hash) :
    Except MipsRevert (U32 × U32 × U32 × Hash) :=
  if a0 = 0 then .ok (0, 0, preimageOffset, memRoot)
  else if a0 = 5 then do
    let mem ← readMem keccak256 calldata memRoot (a1 &&& 0xFFFFFFFC) proofOffset
    let preimageKey :=
      if preimageKey.1.head? = some 1 then localize keccak256 sender preimageKey localContext
      else preimageKey
    let (dat, datLen) ← readPreimage oracle preimageKey preimageOffset.toNat
    let (mem, datLen) := insertData a1 a2 mem dat (BitVec.ofNat 256 datLen)
    let newMemRoot ← writeMem keccak256 calldata (a1 &&& 0xFFFFFFFC) proofOffset mem
    pure (datLen.setWidth 32, 0, preimageOffset + datLen.setWidth 32, newMemRoot)
  else if a0 = 3 then .ok (a2, 0, preimageOffset, memRoot)
  else .ok (0xFFFFFFFF, 9, preimageOffset, memRoot)

def handleSysWrite (a0 a1 a2 : U32) (preimageKey : Hash) (preimageOffset : U32)
    (proofOffset : ℕ) (memRoot : Hash) : Except MipsRevert (U32 × U32 × Hash × U32) :=
  if a0 = 1 ∨ a0 = 2 ∨ a0 = 4 then .ok (a2, 0, preimageKey, preimageOffset)
  else if a0 = 6 then do
    let mem ← readMem keccak256 calldata memRoot (a1 &&& 0xFFFFFFFC) proofOffset
    let (key, a2) := insertKey a1 a2 mem preimageKey
    pure (a2, 0, key, 0)
  else .ok (0xFFFFFFFF, 9, preimageKey, preimageOffset)

end Memory

def handleSysFcntl (a0 a1 : U32) : U32 × U32 :=
  if a1 = 3 then
    if a0 = 0 ∨ a0 = 5 ∨ a0 = 3 then (0, 0)
    else if a0 = 1 ∨ a0 = 2 ∨ a0 = 6 ∨ a0 = 4 then (1, 0)
    else (0xFFFFFFFF, 9)
  else (0xFFFFFFFF, 0x16)

def handleSyscallUpdates (core : Core) (v0 v1 : U32) : Core where
  cpu := core.cpu.advance (core.cpu.nextPC + 4)
  registers := (core.registers.set 2 v0).set 7 v1

end MIPSSyscalls

/-! ## The contract -/

namespace MIPS

/-- `State` of the contract.  `exited` is the byte that the witness has. -/
@[ext]
structure State where
  memRoot : Hash
  preimageKey : Hash
  preimageOffset : U32
  pc : U32
  nextPC : U32
  lo : U32
  hi : U32
  heap : U32
  exitCode : UInt8
  exited : UInt8
  step : BitVec 64
  registers : Registers

namespace State

/-- `getCpuScalars`, with the registers. -/
def core (s : State) : Core := ⟨⟨s.pc, s.nextPC, s.lo, s.hi⟩, s.registers⟩

/-- `setStateCpuScalars`, with the registers. -/
def withCore (s : State) (core : Core) : State :=
  { s with pc := core.cpu.pc, nextPC := core.cpu.nextPC, lo := core.cpu.lo, hi := core.cpu.hi
           registers := core.registers }

/-- The bytes that `outputState` puts together. -/
def packed (s : State) : Bytes :=
  s.memRoot.1 ++ s.preimageKey.1 ++ beBytes 4 s.preimageOffset.toNat ++ beBytes 4 s.pc.toNat ++
    beBytes 4 s.nextPC.toNat ++ beBytes 4 s.lo.toNat ++ beBytes 4 s.hi.toNat ++
    beBytes 4 s.heap.toNat ++ [s.exitCode] ++ [s.exited] ++ beBytes 8 s.step.toNat ++
    (List.ofFn s.registers).flatMap fun r => beBytes 4 r.toNat

def outputState (keccak256 : Bytes → Hash) (s : State) : Hash :=
  let status : BitVec 256 :=
    if s.exited = 1 then if s.exitCode = 0 then 0 else if s.exitCode = 1 then 1 else 2 else 3
  ofWord ((~~~((0xFF : BitVec 256) <<< 248) &&& word (keccak256 s.packed)) ||| (status <<< 248))

end State

def stepProofOffset : ℕ := 420

/-- The selector of `step(bytes,bytes,bytes32)`. -/
def stepSelector : Bytes := [0xe1, 0x4c, 0xed, 0x32]

/-- The calldata of a call of `step`: the selector, the offsets of the two byte strings, the local
context, and the byte strings with their lengths, padded to words. -/
def stepCalldata (stateData proof : Bytes) (localContext : Hash) : Bytes :=
  let padded (bs : Bytes) := padTo ((bs.length + 31) / 32 * 32) bs
  stepSelector ++ beBytes 32 96 ++ beBytes 32 (128 + (padded stateData).length) ++
    localContext.1 ++ beBytes 32 stateData.length ++ padded stateData ++
    beBytes 32 proof.length ++ padded proof

/-- A field of `size` bytes of the packed state: `putField` shifts the word that starts with it. -/
def field (calldata : Bytes) (callOffset size : ℕ) : ℕ :=
  (word (calldataload calldata callOffset) >>> (8 * (32 - size))).toNat

/-- The state that `step` unpacks from calldata at the offset `c`. -/
def unpack (calldata : Bytes) (c : ℕ) : State where
  memRoot := calldataload calldata c
  preimageKey := calldataload calldata (c + 32)
  preimageOffset := BitVec.ofNat 32 (field calldata (c + 64) 4)
  pc := BitVec.ofNat 32 (field calldata (c + 68) 4)
  nextPC := BitVec.ofNat 32 (field calldata (c + 72) 4)
  lo := BitVec.ofNat 32 (field calldata (c + 76) 4)
  hi := BitVec.ofNat 32 (field calldata (c + 80) 4)
  heap := BitVec.ofNat 32 (field calldata (c + 84) 4)
  exitCode := UInt8.ofNat (field calldata (c + 88) 1)
  exited := UInt8.ofNat (field calldata (c + 89) 1)
  step := BitVec.ofNat 64 (field calldata (c + 90) 8)
  registers i := BitVec.ofNat 32 (field calldata (c + 98 + 4 * i) 4)

section Step

variable (keccak256 : Bytes → Hash) (oracle : Oracle) (sender : ℕ) (calldata : Bytes)

/-- `handleSyscallUpdates` and `setStateCpuScalars`. -/
def update (s : State) (v0 v1 : U32) : State :=
  s.withCore (MIPSSyscalls.handleSyscallUpdates s.core v0 v1)

/-- `handleSyscall`, up to `outputState`. -/
def handleSyscall (s : State) (localContext : Hash) : Except MipsRevert State :=
  let syscallNo := s.registers 2
  let a0 := s.registers 4
  let a1 := s.registers 5
  let a2 := s.registers 6
  let proofOffset := memoryProofOffset stepProofOffset 1
  if syscallNo = 4090 then
    let (v0, v1, heap) := MIPSSyscalls.handleSysMmap a0 a1 s.heap
    .ok (update { s with heap } v0 v1)
  else if syscallNo = 4045 then .ok (update s 0x40000000 0)
  else if syscallNo = 4120 then .ok (update s 1 0)
  else if syscallNo = 4246 then
    .ok { s with exited := 1, exitCode := UInt8.ofNat a0.toNat }
  else if syscallNo = 4003 then do
    let (v0, v1, preimageOffset, memRoot) ← MIPSSyscalls.handleSysRead keccak256 calldata oracle
      sender a0 a1 a2 s.preimageKey s.preimageOffset localContext proofOffset s.memRoot
    pure (update { s with preimageOffset, memRoot } v0 v1)
  else if syscallNo = 4004 then do
    let (v0, v1, preimageKey, preimageOffset) ← MIPSSyscalls.handleSysWrite keccak256 calldata
      a0 a1 a2 s.preimageKey s.preimageOffset proofOffset s.memRoot
    pure (update { s with preimageKey, preimageOffset } v0 v1)
  else if syscallNo = 4055 then
    let (v0, v1) := MIPSSyscalls.handleSysFcntl a0 a1
    .ok (update s v0 v1)
  else .ok (update s 0 0)

/-- `step` after the state is unpacked, up to `outputState`. -/
def stepState (s : State) (localContext : Hash) : Except MipsRevert State :=
  if s.exited ≠ 0 then .ok s
  else do
    let s := { s with step := s.step + 1 }
    let insn ← readMem keccak256 calldata s.memRoot s.pc (memoryProofOffset stepProofOffset 0)
    let opcode := insn >>> 26
    let fn := insn &&& 0x3f
    if opcode = 0 ∧ fn = 0xC then handleSyscall keccak256 oracle sender calldata s localContext
    else
      let (core, memRoot) ← MIPSInstructions.execMipsCoreStepLogic keccak256 calldata s.core
        s.memRoot (memoryProofOffset stepProofOffset 1) insn opcode fn
      pure ({ s with memRoot }.withCore core)

/-- `step`, called with calldata as the compiler encodes it, so that the state data starts at
offset 132. -/
def step (stateData proof : Bytes) (localContext : Hash) : Except MipsRevert Hash := do
  let calldata := stepCalldata stateData proof localContext
  let proofOffset := 132 + (stateData.length + 31) / 32 * 32 + 32
  revertIf (proofOffset ≠ stepProofOffset) .bare
  let s ← stepState keccak256 oracle sender calldata (unpack calldata 132) localContext
  pure (s.outputState keccak256)

end Step

end MIPS

end FightNight.Cannon
