import FightNight.Cannon.Instructions

/-!
# The virtual machine

`State` of `cannon/mipsevm/state.go`, `InstrumentedState` of `cannon/mipsevm/instrumented.go` and
the steps of `mips.go`, `mips_syscalls.go` and `mips_instructions.go`.

The preimage oracle is a partial function and panics where it is undefined.  Of hints and output
only the buffer of the hints is modelled, and the effect that reading their bytes has on the
lookup cache of the memory.  `io.Copy` and `io.ReadAll` read with buffers, whose length is a
parameter.  The call stack for debugging is left out.
-/

namespace FightNight.Cannon

open ByteMap
open Preimage (Hash Hash.zero)

/-! ## The state -/

structure State where
  memory : Memory
  preimageKey : Hash
  preimageOffset : U32
  cpu : CpuScalars
  heap : U32
  exitCode : UInt8
  exited : Bool
  step : BitVec 64
  registers : Registers
  lastHint : Bytes

/-- `binary.BigEndian.AppendUint32`. -/
def be32 (v : U32) : Bytes := beBytes 4 v.toNat

def vmStatus (exited : Bool) (exitCode : UInt8) : UInt8 :=
  if !exited then 3 else if exitCode = 0 then 0 else if exitCode = 1 then 1 else 2

/-- `hash[0] = status`. -/
def setStatus (status : UInt8) (h : Hash) : Hash :=
  ⟨status :: h.1.drop 1, by rw [List.length_cons, List.length_drop, h.2]⟩

section Witness

variable (keccak256 : Bytes → Hash)

/-- `stateHashFromWitness`; a witness that `EncodeWitness` makes has the length 226. -/
def stateHashFromWitness (sw : Bytes) : Hash :=
  let offset := 32 * 2 + 4 * 6
  let exitCode := sw.getD offset 0
  let exited := sw.getD (offset + 1) 0
  setStatus (vmStatus (exited = 1) exitCode) (keccak256 sw)

/-- The bytes that `EncodeWitness` puts together. -/
def State.witness (s : State) (memRoot : Hash) : Bytes :=
  memRoot.1 ++ s.preimageKey.1 ++ be32 s.preimageOffset ++ be32 s.cpu.pc ++ be32 s.cpu.nextPC ++
    be32 s.cpu.lo ++ be32 s.cpu.hi ++ be32 s.heap ++ [s.exitCode] ++
    [if s.exited then 1 else 0] ++ beBytes 8 s.step.toNat ++ (List.ofFn s.registers).flatMap be32

/-- `State.EncodeWitness`: the witness, its hash, and the state with the hashes of its memory. -/
def State.encodeWitness (s : State) : Bytes × Hash × State :=
  let root := s.memory.merkleRoot keccak256
  let out := s.witness root.1
  (out, stateHashFromWitness keccak256 out, { s with memory := root.2 })

end Witness

/-! ## The instrumented state -/

structure InstrumentedState where
  state : State
  lastMemAccess : U32
  memProofEnabled : Bool
  memProof : Bytes
  lastPreimage : Bytes
  lastPreimageKey : Hash
  lastPreimageOffset : U32

def newInstrumentedState (state : State) : InstrumentedState where
  state
  lastMemAccess := 0
  memProofEnabled := false
  memProof := List.replicate (28 * 32) 0
  lastPreimage := []
  lastPreimageKey := Hash.zero
  lastPreimageOffset := 0

structure StepWitness where
  state : Bytes
  stateHash : Hash
  memProof : Bytes
  preimageKey : Hash
  preimageValue : Bytes
  preimageOffset : U32

/-- A preimage with its length before it, as the program reads it. -/
def lengthPrefixed (data : Bytes) : Bytes := beBytes 8 data.length ++ data

namespace InstrumentedState

def withMemory (m : InstrumentedState) (memory : Memory) : InstrumentedState :=
  { m with state := { m.state with memory } }

def core (m : InstrumentedState) : Core := ⟨m.state.cpu, m.state.registers⟩

def withCore (m : InstrumentedState) (core : Core) : InstrumentedState :=
  { m with state := { m.state with cpu := core.cpu, registers := core.registers } }

variable (keccak256 : Bytes → Hash) (preimages : Hash → Option Bytes) (bufSize : ℕ)

/-- The first part of `readPreimage`: the preimage of another key is asked for. -/
def askPreimage (m : InstrumentedState) (key : Hash) : Except Panic InstrumentedState :=
  if key ≠ m.lastPreimageKey then
    match preimages key with
    | none => .error .preimageNotFound
    | some data => .ok { m with lastPreimageKey := key, lastPreimage := lengthPrefixed data }
  else .ok m

/-- `readPreimage`: the data, continued by zeros, and how many bytes there are. -/
def readPreimage (m : InstrumentedState) (key : Hash) (offset : U32) :
    Except Panic (Hash × U32 × InstrumentedState) := do
  let m ← m.askPreimage preimages key
  let m := { m with lastPreimageOffset := offset }
  Except.revertIf (m.lastPreimage.length < offset.toNat) .sliceBounds
  let dat := m.lastPreimage.drop offset.toNat
  pure (Preimage.Hash.ofBytes dat, BitVec.ofNat 32 (min 32 dat.length), m)

def trackMemAccess (m : InstrumentedState) (effAddr : U32) : Except Panic InstrumentedState :=
  if m.memProofEnabled ∧ m.lastMemAccess ≠ effAddr then do
    Except.revertIf (m.lastMemAccess ≠ 0xFFFFFFFF) (.unexpectedMemAccess effAddr m.lastMemAccess)
    let proof := m.state.memory.merkleProof keccak256 effAddr
    pure { m.withMemory proof.2 with lastMemAccess := effAddr, memProof := proof.1 }
  else pure m

/-- `memory.GetMemory` in the machine. -/
def getMemory (m : InstrumentedState) (addr : U32) : Except Panic (U32 × InstrumentedState) := do
  let (v, memory) ← m.state.memory.getMemory addr
  pure (v, m.withMemory memory)

/-- `memory.SetMemory` in the machine. -/
def setMemory (m : InstrumentedState) (addr v : U32) : Except Panic InstrumentedState := do
  pure (m.withMemory (← m.state.memory.setMemory addr v))

/-! ## System calls -/

def handleSysMmap (a0 a1 heap : U32) : U32 × U32 × U32 :=
  let sz := if a1 &&& 4095 ≠ 0 then a1 + (4096 - (a1 &&& 4095)) else a1
  if a0 = 0 then (heap, 0, heap + sz) else (a0, 0, heap)

def handleSysRead (m : InstrumentedState) (a0 a1 a2 : U32) :
    Except Panic (U32 × U32 × U32 × InstrumentedState) :=
  let preimageOffset := m.state.preimageOffset
  if a0 = 0 then .ok (0, 0, preimageOffset, m)
  else if a0 = 5 then do
    let effAddr := a1 &&& 0xFFFFFFFC
    let m ← m.trackMemAccess keccak256 effAddr
    let (mem, m) ← m.getMemory effAddr
    let (dat, datLen, m) ← m.readPreimage preimages m.state.preimageKey preimageOffset
    let alignment := a1 &&& 3
    let space := 4 - alignment
    let datLen := if space < datLen then space else datLen
    let datLen := if a2 < datLen then a2 else datLen
    let outMem := be32 mem
    let outMem := outMem.take alignment.toNat ++ dat.1.take datLen.toNat ++
      outMem.drop (alignment.toNat + datLen.toNat)
    let m ← m.setMemory effAddr (Memory.uint32 outMem)
    pure (datLen, 0, preimageOffset + datLen, m)
  else if a0 = 3 then .ok (a2, 0, preimageOffset, m)
  else .ok (0xFFFFFFFF, 9, preimageOffset, m)

/-- `memReader.Read` until there is nothing left, with a buffer of `bufSize` bytes.  The first
argument bounds the number of reads; each of them reads a byte at least. -/
def readMemoryRange : ℕ → U32 → U32 → Memory → Except Panic (Bytes × Memory)
  | 0, _, _, m => .ok ([], m)
  | reads + 1, addr, count, m =>
    if count = 0 then .ok ([], m)
    else
      let endAddr := addr + count
      let start := pageAddr addr
      let «end» := if pageIndex addr = pageIndex endAddr then pageAddr endAddr else pageSize
      let goOn (data : Bytes) (m : Memory) : Except Panic (Bytes × Memory) := do
        let n := BitVec.ofNat 32 data.length
        let (rest, m) ← readMemoryRange reads (addr + n) (count - n) m
        pure (data ++ rest, m)
      match m.pageLookup (pageIndex addr) with
      | (some p, m) =>
        if «end» < start then .error .sliceBounds
        else goOn (readAt (m.heap p).data start (min bufSize («end» - start))) m
      | (none, m) =>
        -- The difference is one of `uint32`: below zero it wraps around.
        goOn (List.replicate (min bufSize (((2 ^ 32 + «end» - start) % 2 ^ 32))) 0) m

/-- The loop of `handleSysWrite` that takes complete hints from the buffer.  Lengths are of type
`uint32`. -/
def processHints : ℕ → Bytes → Except Panic Bytes
  | 0, lastHint => .ok lastHint
  | turns + 1, lastHint =>
    if 4 ≤ lastHint.length then
      let hintLen := beNat (lastHint.take 4)
      if hintLen ≤ (lastHint.length - 4) % 2 ^ 32 then do
        let «end» := (4 + hintLen) % 2 ^ 32
        Except.revertIf («end» < 4) .sliceBounds
        processHints turns (lastHint.drop «end»)
      else .ok lastHint
    else .ok lastHint

def handleSysWrite (m : InstrumentedState) (a0 a1 a2 : U32) :
    Except Panic (U32 × U32 × Bytes × Hash × U32 × InstrumentedState) :=
  let lastHint := m.state.lastHint
  let preimageKey := m.state.preimageKey
  let preimageOffset := m.state.preimageOffset
  if a0 = 1 ∨ a0 = 2 then do
    let (_, memory) ← readMemoryRange bufSize a2.toNat a1 a2 m.state.memory
    pure (a2, 0, lastHint, preimageKey, preimageOffset, m.withMemory memory)
  else if a0 = 4 then do
    let (hintData, memory) ← readMemoryRange bufSize a2.toNat a1 a2 m.state.memory
    let lastHint := lastHint ++ hintData
    let lastHint ← processHints lastHint.length lastHint
    pure (a2, 0, lastHint, preimageKey, preimageOffset, m.withMemory memory)
  else if a0 = 6 then do
    let effAddr := a1 &&& 0xFFFFFFFC
    let m ← m.trackMemAccess keccak256 effAddr
    let (mem, m) ← m.getMemory effAddr
    let alignment := a1 &&& 3
    let space := 4 - alignment
    let a2 := if space < a2 then space else a2
    let tmp := be32 mem
    let key := preimageKey.1.drop a2.toNat ++ (tmp.drop alignment.toNat).take a2.toNat
    pure (a2, 0, lastHint, Preimage.Hash.ofBytes key, 0, m)
  else .ok (0xFFFFFFFF, 9, lastHint, preimageKey, preimageOffset, m)

def handleSysFcntl (a0 a1 : U32) : U32 × U32 :=
  if a1 = 3 then
    if a0 = 0 ∨ a0 = 5 ∨ a0 = 3 then (0, 0)
    else if a0 = 1 ∨ a0 = 2 ∨ a0 = 6 ∨ a0 = 4 then (1, 0)
    else (0xFFFFFFFF, 9)
  else (0xFFFFFFFF, 0x16)

def handleSyscallUpdates (core : Core) (v0 v1 : U32) : Core where
  cpu := core.cpu.advance (core.cpu.nextPC + 4)
  registers := (core.registers.set 2 v0).set 7 v1

/-- `handleSyscallUpdates` in the machine. -/
def update (m : InstrumentedState) (v0 v1 : U32) : InstrumentedState :=
  m.withCore (handleSyscallUpdates m.core v0 v1)

def handleSyscall (m : InstrumentedState) : Except Panic InstrumentedState :=
  let syscallNum := m.state.registers 2
  let a0 := m.state.registers 4
  let a1 := m.state.registers 5
  let a2 := m.state.registers 6
  if syscallNum = 4090 then
    let (v0, v1, heap) := handleSysMmap a0 a1 m.state.heap
    .ok ({ m with state := { m.state with heap } }.update v0 v1)
  else if syscallNum = 4045 then .ok (m.update 0x40000000 0)
  else if syscallNum = 4120 then .ok (m.update 1 0)
  else if syscallNum = 4246 then
    .ok { m with state := { m.state with exited := true, exitCode := UInt8.ofNat a0.toNat } }
  else if syscallNum = 4003 then do
    let (v0, v1, preimageOffset, m) ← m.handleSysRead keccak256 preimages a0 a1 a2
    pure ({ m with state := { m.state with preimageOffset } }.update v0 v1)
  else if syscallNum = 4004 then do
    let (v0, v1, lastHint, preimageKey, preimageOffset, m) ←
      m.handleSysWrite keccak256 bufSize a0 a1 a2
    pure ({ m with state := { m.state with lastHint, preimageKey, preimageOffset } }.update v0 v1)
  else if syscallNum = 4055 then
    let (v0, v1) := handleSysFcntl a0 a1
    .ok (m.update v0 v1)
  else .ok (m.update 0 0)

/-! ## Instructions -/

/-- The memory fetch of `execMipsCoreStepLogic`: `rs`, `mem`, `storeAddr` and `rdReg` after it. -/
def memoryFetch (m : InstrumentedState) (insn opcode rs rdReg : U32) :
    Except Panic (U32 × U32 × U32 × U32 × InstrumentedState) :=
  if 0x20 ≤ opcode then do
    let rs := rs + signExtend (insn &&& 0xFFFF) 16
    let addr := rs &&& 0xFFFFFFFC
    let m ← m.trackMemAccess keccak256 addr
    let (mem, m) ← m.getMemory addr
    if 0x28 ≤ opcode ∧ opcode ≠ 0x30 then pure (rs, mem, addr, 0, m)
    else pure (rs, mem, 0xFFFFFFFF, rdReg, m)
  else .ok (rs, 0, 0xFFFFFFFF, rdReg, m)

/-- The memory write of `execMipsCoreStepLogic`. -/
def store (m : InstrumentedState) (storeAddr val : U32) : Except Panic InstrumentedState :=
  if storeAddr ≠ 0xFFFFFFFF then do
    let m ← m.trackMemAccess keccak256 storeAddr
    m.setMemory storeAddr val
  else .ok m

/-- The end of `execMipsCoreStepLogic`, after the ALU. -/
def writeBack (m : InstrumentedState) (opcode fn rtReg rs rt val storeAddr rdReg : U32) :
    Except Panic InstrumentedState :=
  let special := opcode = 0 ∧ 8 ≤ fn ∧ fn < 0x1c
  if special ∧ (fn = 8 ∨ fn = 9) then do
    let linkReg := if fn = 9 then rdReg else 0
    pure (m.withCore (← handleJump m.core linkReg rs))
  else if special ∧ fn = 0xa then do
    pure (m.withCore (← handleRd m.core rdReg rs (rt = 0)))
  else if special ∧ fn = 0xb then do
    pure (m.withCore (← handleRd m.core rdReg rs (rt ≠ 0)))
  else if special ∧ 0x10 ≤ fn ∧ fn < 0x1c then do
    pure (m.withCore (← handleHiLo m.core fn rs rt rdReg))
  else do
    let registers :=
      if opcode = 0x38 ∧ rtReg ≠ 0 then m.state.registers.set rtReg 1 else m.state.registers
    let m ← (m.withCore ⟨m.state.cpu, registers⟩).store keccak256 storeAddr val
    pure (m.withCore (← handleRd m.core rdReg val true))

def execMipsCoreStepLogic (m : InstrumentedState) (insn opcode fn : U32) :
    Except Panic InstrumentedState :=
  let rtReg := (insn >>> 16) &&& 0x1F
  if opcode = 2 ∨ opcode = 3 then do
    let linkReg : U32 := if opcode = 3 then 31 else 0
    let target := (m.state.cpu.nextPC &&& (0xF0000000 : U32)) ||| ((insn &&& 0x03FFFFFF) <<< 2)
    pure (m.withCore (← handleJump m.core linkReg target))
  else
    let ⟨rs, rt, rdReg⟩ := registerFetch m.state.registers insn opcode
    if (4 ≤ opcode ∧ opcode < 8) ∨ opcode = 1 then do
      pure (m.withCore (← handleBranch m.core opcode insn rtReg rs))
    else do
      let (rs, mem, storeAddr, rdReg, m) ← m.memoryFetch keccak256 insn opcode rs rdReg
      let val ← executeMipsInstruction insn opcode fn rs rt mem
      m.writeBack keccak256 opcode fn rtReg rs rt val storeAddr rdReg

/-! ## Steps -/

def mipsStep (m : InstrumentedState) : Except Panic InstrumentedState :=
  if m.state.exited then .ok m
  else do
    let m := { m with state := { m.state with step := m.state.step + 1 } }
    let (insn, m) ← m.getMemory m.state.cpu.pc
    let opcode := insn >>> 26
    let fn := insn &&& 0x3f
    if opcode = 0 ∧ fn = 0xC then m.handleSyscall keccak256 preimages bufSize
    else m.execMipsCoreStepLogic keccak256 insn opcode fn

/-- The machine at the start of a step. -/
def reset (m : InstrumentedState) (proof : Bool) : InstrumentedState :=
  { m with memProofEnabled := proof, lastMemAccess := 0xFFFFFFFF, lastPreimageOffset := 0xFFFFFFFF }

/-- The witness of a step from its parts; the preimage that was read is in it. -/
def witnessOf (m : InstrumentedState) (state : Bytes) (stateHash : Hash) (insnProof : Bytes) :
    StepWitness :=
  let read := m.lastPreimageOffset ≠ 0xFFFFFFFF
  { state
    stateHash
    memProof := insnProof ++ m.memProof
    preimageKey := if read then m.lastPreimageKey else Hash.zero
    preimageValue := if read then m.lastPreimage else []
    preimageOffset := if read then m.lastPreimageOffset else 0 }

/-- `Step`, with the witness if a proof is asked for. -/
def step (m : InstrumentedState) (proof : Bool) :
    Except Panic (Option StepWitness × InstrumentedState) :=
  let m := m.reset proof
  if proof then do
    let insnProof := m.state.memory.merkleProof keccak256 m.state.cpu.pc
    let encoded := (m.withMemory insnProof.2).state.encodeWitness keccak256
    let m ← { m with state := encoded.2.2 }.mipsStep keccak256 preimages bufSize
    pure (some (m.witnessOf encoded.1 encoded.2.1 insnProof.1), m)
  else do
    pure (none, ← m.mipsStep keccak256 preimages bufSize)

end InstrumentedState

end FightNight.Cannon
