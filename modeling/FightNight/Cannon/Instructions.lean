import FightNight.Cannon.Memory

/-!
# The instructions of the virtual machine

The functions of `cannon/mipsevm/mips_instructions.go` that do not touch the memory.  A register is
chosen by five bits of the instruction, so that its number is always below 32.

`switch` is a sequence of tests.  The shift operators of Go and of bit vectors agree: shifting by
the width or more gives zero.
-/

namespace FightNight.Cannon

structure CpuScalars where
  pc : U32
  nextPC : U32
  lo : U32
  hi : U32
  deriving DecidableEq

/-- `[32]uint32`. -/
abbrev Registers := Fin 32 → U32

instance Registers.neZero : NeZero 32 := inferInstance

/-- `registers[i]`. -/
def Registers.get (registers : Registers) (i : U32) : U32 := registers (Fin.ofNat 32 i.toNat)

/-- `registers[i] = v`. -/
def Registers.set (registers : Registers) (i v : U32) : Registers :=
  Function.update registers (Fin.ofNat 32 i.toNat) v

/-- What an instruction changes besides the memory. -/
structure Core where
  cpu : CpuScalars
  registers : Registers

/-- `cpu.PC = cpu.NextPC` and `cpu.NextPC = dest`. -/
def CpuScalars.advance (cpu : CpuScalars) (dest : U32) : CpuScalars :=
  { cpu with pc := cpu.nextPC, nextPC := dest }

def signExtend (dat idx : U32) : U32 :=
  let signed := ((1 : U32) <<< (32 - idx) - 1) <<< idx
  let mask := (1 : U32) <<< idx - 1
  if dat >>> (idx - 1) ≠ 0 then dat &&& mask ||| signed else dat &&& mask

/-- The loop `for ; rs&0x80000000 != 0; i++` with `rs <<= 1`, which ends after 32 turns. -/
def leadingOnes : ℕ → U32 → U32 → U32
  | 0, _, i => i
  | turns + 1, rs, i =>
    if rs &&& 0x80000000 ≠ 0 then leadingOnes turns (rs <<< 1) (i + 1) else i

/-- The first `switch` of `executeMipsInstruction`: an instruction with an immediate operand as the
one with two registers. -/
def specialFun (opcode fn : U32) : U32 :=
  if opcode = 8 then 0x20
  else if opcode = 9 then 0x21
  else if opcode = 0xA then 0x2A
  else if opcode = 0xB then 0x2B
  else if opcode = 0xC then 0x24
  else if opcode = 0xD then 0x25
  else if opcode = 0xE then 0x26
  else fn

/-- `switch fun` of `executeMipsInstruction`. -/
def executeSpecial (insn fn rs rt : U32) : Except Panic U32 :=
  if fn = 0x00 then .ok (rt <<< ((insn >>> 6) &&& 0x1F))
  else if fn = 0x02 then .ok (rt >>> ((insn >>> 6) &&& 0x1F))
  else if fn = 0x03 then
    let shamt := (insn >>> 6) &&& 0x1F
    .ok (signExtend (rt >>> shamt) (32 - shamt))
  else if fn = 0x04 then .ok (rt <<< (rs &&& 0x1F))
  else if fn = 0x06 then .ok (rt >>> (rs &&& 0x1F))
  else if fn = 0x07 then .ok (signExtend (rt >>> rs) (32 - rs))
  else if fn = 0x08 then .ok rs
  else if fn = 0x09 then .ok rs
  else if fn = 0x0a then .ok rs
  else if fn = 0x0b then .ok rs
  else if fn = 0x0c then .ok rs
  else if fn = 0x0f then .ok rs
  else if fn = 0x10 then .ok rs
  else if fn = 0x11 then .ok rs
  else if fn = 0x12 then .ok rs
  else if fn = 0x13 then .ok rs
  else if fn = 0x18 then .ok rs
  else if fn = 0x19 then .ok rs
  else if fn = 0x1a then .ok rs
  else if fn = 0x1b then .ok rs
  else if fn = 0x20 then .ok (rs + rt)
  else if fn = 0x21 then .ok (rs + rt)
  else if fn = 0x22 then .ok (rs - rt)
  else if fn = 0x23 then .ok (rs - rt)
  else if fn = 0x24 then .ok (rs &&& rt)
  else if fn = 0x25 then .ok (rs ||| rt)
  else if fn = 0x26 then .ok (rs ^^^ rt)
  else if fn = 0x27 then .ok (~~~(rs ||| rt))
  else if fn = 0x2a then .ok (if rs.toInt < rt.toInt then 1 else 0)
  else if fn = 0x2b then .ok (if rs < rt then 1 else 0)
  else .error .invalidInstruction

def executeMipsInstruction (insn opcode fn rs rt mem : U32) : Except Panic U32 :=
  if opcode = 0 ∨ (8 ≤ opcode ∧ opcode < 0xF) then
    executeSpecial insn (specialFun opcode fn) rs rt
  else if opcode = 0x1C then
    if fn = 0x2 then .ok (BitVec.ofInt 32 (rs.toInt * rt.toInt))
    else if fn = 0x20 ∨ fn = 0x21 then
      .ok (leadingOnes 32 (if fn = 0x20 then ~~~rs else rs) 0)
    else .error .invalidInstruction
  else if opcode = 0x0F then .ok (rt <<< 16)
  else if opcode = 0x20 then .ok (signExtend ((mem >>> (24 - (rs &&& 3) * 8)) &&& 0xFF) 8)
  else if opcode = 0x21 then .ok (signExtend ((mem >>> (16 - (rs &&& 2) * 8)) &&& 0xFFFF) 16)
  else if opcode = 0x22 then
    let val := mem <<< ((rs &&& 3) * 8)
    let mask := (0xFFFFFFFF : U32) <<< ((rs &&& 3) * 8)
    .ok ((rt &&& ~~~mask) ||| val)
  else if opcode = 0x23 then .ok mem
  else if opcode = 0x24 then .ok ((mem >>> (24 - (rs &&& 3) * 8)) &&& 0xFF)
  else if opcode = 0x25 then .ok ((mem >>> (16 - (rs &&& 2) * 8)) &&& 0xFFFF)
  else if opcode = 0x26 then
    let val := mem >>> (24 - (rs &&& 3) * 8)
    let mask := (0xFFFFFFFF : U32) >>> (24 - (rs &&& 3) * 8)
    .ok ((rt &&& ~~~mask) ||| val)
  else if opcode = 0x28 then
    let val := (rt &&& 0xFF) <<< (24 - (rs &&& 3) * 8)
    let mask := 0xFFFFFFFF ^^^ ((0xFF : U32) <<< (24 - (rs &&& 3) * 8))
    .ok ((mem &&& mask) ||| val)
  else if opcode = 0x29 then
    let val := (rt &&& 0xFFFF) <<< (16 - (rs &&& 2) * 8)
    let mask := 0xFFFFFFFF ^^^ ((0xFFFF : U32) <<< (16 - (rs &&& 2) * 8))
    .ok ((mem &&& mask) ||| val)
  else if opcode = 0x2a then
    let val := rt >>> ((rs &&& 3) * 8)
    let mask := (0xFFFFFFFF : U32) >>> ((rs &&& 3) * 8)
    .ok ((mem &&& ~~~mask) ||| val)
  else if opcode = 0x2b then .ok rt
  else if opcode = 0x2e then
    let val := rt <<< (24 - (rs &&& 3) * 8)
    let mask := (0xFFFFFFFF : U32) <<< (24 - (rs &&& 3) * 8)
    .ok ((mem &&& ~~~mask) ||| val)
  else if opcode = 0x30 then .ok mem
  else if opcode = 0x38 then .ok rt
  else .error .invalidInstruction

/-- `shouldBranch` of `handleBranch`. -/
def shouldBranch (registers : Registers) (opcode insn rtReg rs : U32) : Bool :=
  if opcode = 4 ∨ opcode = 5 then
    let rt := registers.get rtReg
    decide ((rs = rt ∧ opcode = 4) ∨ (rs ≠ rt ∧ opcode = 5))
  else if opcode = 6 then decide (rs.toInt ≤ 0)
  else if opcode = 7 then decide (rs.toInt > 0)
  else if opcode = 1 then
    let rtv := (insn >>> 16) &&& 0x1F
    if rtv = 0 then decide (rs.toInt < 0) else if rtv = 1 then decide (rs.toInt ≥ 0) else false
  else false

def handleBranch (core : Core) (opcode insn rtReg rs : U32) : Except Panic Core := do
  Except.revertIf (core.cpu.nextPC ≠ core.cpu.pc + 4) .branchInDelaySlot
  if shouldBranch core.registers opcode insn rtReg rs then
    let dest := core.cpu.pc + (4 : U32) + (signExtend (insn &&& 0xFFFF) 16 <<< 2)
    pure { core with cpu := core.cpu.advance dest }
  else pure { core with cpu := core.cpu.advance (core.cpu.nextPC + 4) }

/-- `switch fun` of `handleHiLo`: the scalars after it and the value to store. -/
def executeHiLo (cpu : CpuScalars) (fn rs rt : U32) : Except Panic (CpuScalars × U32) :=
  if fn = 0x10 then .ok (cpu, cpu.hi)
  else if fn = 0x11 then .ok ({ cpu with hi := rs }, 0)
  else if fn = 0x12 then .ok (cpu, cpu.lo)
  else if fn = 0x13 then .ok ({ cpu with lo := rs }, 0)
  else if fn = 0x18 then
    let acc := BitVec.ofInt 64 (rs.toInt * rt.toInt)
    .ok ({ cpu with hi := (acc >>> 32).setWidth 32, lo := acc.setWidth 32 }, 0)
  else if fn = 0x19 then
    let acc := rs.setWidth 64 * rt.setWidth 64
    .ok ({ cpu with hi := (acc >>> 32).setWidth 32, lo := acc.setWidth 32 }, 0)
  else if fn = 0x1a then
    if rt = 0 then .error .divideByZero
    else .ok ({ cpu with hi := BitVec.ofInt 32 (rs.toInt.tmod rt.toInt),
                         lo := BitVec.ofInt 32 (rs.toInt.tdiv rt.toInt) }, 0)
  else if fn = 0x1b then
    if rt = 0 then .error .divideByZero else .ok ({ cpu with hi := rs % rt, lo := rs / rt }, 0)
  else .ok (cpu, 0)

def handleHiLo (core : Core) (fn rs rt storeReg : U32) : Except Panic Core := do
  let (cpu, val) ← executeHiLo core.cpu fn rs rt
  pure { cpu := cpu.advance (cpu.nextPC + 4)
         registers := if storeReg ≠ 0 then core.registers.set storeReg val else core.registers }

def handleJump (core : Core) (linkReg dest : U32) : Except Panic Core := do
  Except.revertIf (core.cpu.nextPC ≠ core.cpu.pc + 4) .jumpInDelaySlot
  pure { cpu := core.cpu.advance dest
         registers := if linkReg ≠ 0 then core.registers.set linkReg (core.cpu.pc + 8)
                      else core.registers }

def handleRd (core : Core) (storeReg val : U32) (conditional : Bool) : Except Panic Core := do
  Except.revertIf (32 ≤ storeReg) .invalidRegister
  pure { cpu := core.cpu.advance (core.cpu.nextPC + 4)
         registers := if storeReg ≠ 0 ∧ conditional then core.registers.set storeReg val
                      else core.registers }

/-- The operands that `execMipsCoreStepLogic` fetches: `rs`, `rt` and `rdReg`. -/
structure Operands where
  rs : U32
  rt : U32
  rdReg : U32

/-- The register fetch of `execMipsCoreStepLogic`. -/
def registerFetch (registers : Registers) (insn opcode : U32) : Operands :=
  let rtReg := (insn >>> 16) &&& 0x1F
  let rs := registers.get ((insn >>> 21) &&& 0x1F)
  if opcode = 0 ∨ opcode = 0x1c then ⟨rs, registers.get rtReg, (insn >>> 11) &&& 0x1F⟩
  else if opcode < 0x20 then
    if opcode = 0xC ∨ opcode = 0xD ∨ opcode = 0xe then ⟨rs, insn &&& 0xFFFF, rtReg⟩
    else ⟨rs, signExtend (insn &&& 0xFFFF) 16, rtReg⟩
  else if 0x28 ≤ opcode ∨ opcode = 0x22 ∨ opcode = 0x26 then ⟨rs, registers.get rtReg, rtReg⟩
  else ⟨rs, 0, rtReg⟩

end FightNight.Cannon
