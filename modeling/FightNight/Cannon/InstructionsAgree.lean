import FightNight.Cannon.Contract
import FightNight.Library.Simulation

/-!
# The two implementations of the instructions

The functions of the library `MIPSInstructions` that do not touch the memory do what those of the
Go machine do: they return the same wherever the Go machine does not panic.  The contract calculates
some masks with 256 bits and truncates them, which gives what 32 bits give.  In both, `srav` shifts by
all of its register, and not by its last five bits as `sllv` and `srlv` do (`variable_shifts`).
-/

namespace FightNight.Cannon

open BitVec Follows

/-! ## Truncation -/

lemma setWidth_sub_one (x : BitVec 256) : (x - 1).setWidth 32 = x.setWidth 32 - 1 := by
  have hone : (-1 : BitVec 256).setWidth 32 = -1 := by decide
  rw [sub_eq_add_neg, setWidth_add _ _ (by decide), hone, ← sub_eq_add_neg]

lemma setWidth_widen (x : U32) : (x.setWidth 256).setWidth 32 = x := by
  rw [setWidth_setWidth_of_le _ (by decide), setWidth_eq]

namespace MIPSInstructions

lemma signExtend_eq (dat idx : U32) : signExtend dat idx = Cannon.signExtend dat idx := by
  have hone : (1 : BitVec 256).setWidth 32 = 1 := by decide
  have hmask : ((1 : BitVec 256) <<< idx - 1).setWidth 32 = (1 : U32) <<< idx - 1 := by
    rw [setWidth_sub_one, shiftLeft_eq', setWidth_shiftLeft_of_le (by decide), hone,
      shiftLeft_eq']
  have hsgn : (((1 : BitVec 256) <<< (32 - idx) - 1) <<< idx).setWidth 32 =
      ((1 : U32) <<< (32 - idx) - 1) <<< idx := by
    rw [shiftLeft_eq', setWidth_shiftLeft_of_le (by decide), setWidth_sub_one, shiftLeft_eq',
      setWidth_shiftLeft_of_le (by decide)]
    rfl
  unfold signExtend Cannon.signExtend
  rw [setWidth_or, setWidth_and, setWidth_widen, hmask]
  split
  · rw [hsgn]
  · exact or_zero

/-! ## The instructions -/

lemma executeSpecial_agrees (insn fn rs rt : U32) :
    Follows Eq (Cannon.executeSpecial insn fn rs rt) (executeSpecial insn fn rs rt) := by
  unfold executeSpecial
  simp only [signExtend_eq]
  repeat' refine ite (fun _ => ?_) (fun _ => ?_)
  all_goals first | exact pure rfl | exact error _

lemma executeMipsInstruction_agrees (insn opcode fn rs rt mem : U32) :
    Follows Eq (Cannon.executeMipsInstruction insn opcode fn rs rt mem)
      (executeMipsInstruction insn opcode fn rs rt mem) := by
  refine ite (fun _ => executeSpecial_agrees _ _ _ _) (fun _ => ?_)
  simp only [signExtend_eq, shiftLeft_eq', setWidth_shiftLeft_of_le, Nat.reduceLeDiff]
  repeat' refine ite (fun _ => ?_) (fun _ => ?_)
  all_goals first | exact pure rfl | exact error _

lemma handleBranch_agrees (core : Core) (opcode insn rtReg rs : U32) :
    Follows Eq (Cannon.handleBranch core opcode insn rtReg rs)
      (handleBranch core opcode insn rtReg rs) := by
  refine bind (revertIf id) ?_
  rintro _ _ rfl
  rw [signExtend_eq]
  exact ite (fun _ => pure rfl) (fun _ => pure rfl)

lemma executeHiLo_agrees (cpu : CpuScalars) (fn rs rt : U32) :
    Follows Eq (Cannon.executeHiLo cpu fn rs rt) (executeHiLo cpu fn rs rt) := by
  have hzero : rt.toInt = 0 ↔ rt = 0 := by
    constructor
    · intro h
      exact eq_of_toInt_eq h
    · rintro rfl
      rfl
  unfold executeHiLo
  simp only [hzero]
  repeat' refine ite (fun _ => ?_) (fun _ => ?_)
  all_goals first | exact pure rfl | exact error _

lemma handleHiLo_agrees (core : Core) (fn rs rt storeReg : U32) :
    Follows Eq (Cannon.handleHiLo core fn rs rt storeReg) (handleHiLo core fn rs rt storeReg) := by
  refine bind (executeHiLo_agrees _ _ _ _) ?_
  rintro _ _ rfl
  exact pure rfl

lemma handleJump_agrees (core : Core) (linkReg dest : U32) :
    Follows Eq (Cannon.handleJump core linkReg dest) (handleJump core linkReg dest) := by
  refine bind (revertIf id) ?_
  rintro _ _ rfl
  exact pure rfl

lemma handleRd_agrees (core : Core) (storeReg val : U32) (conditional : Bool) :
    Follows Eq (Cannon.handleRd core storeReg val conditional)
      (handleRd core storeReg val conditional) := by
  refine bind (revertIf BitVec.not_lt.mp) ?_
  rintro _ _ rfl
  exact pure rfl

lemma registerFetch_eq (registers : Registers) (insn opcode : U32) :
    registerFetch registers insn opcode = Cannon.registerFetch registers insn opcode := by
  unfold registerFetch Cannon.registerFetch
  rw [signExtend_eq]

end MIPSInstructions

/-! ## Shifts by a register -/

/-- The arithmetic shift gives zero for the numbers that have no more bits than it drops. -/
theorem signExtend_shift_eq_zero {s : U32} (hs : s.toNat < 32) (rt : U32) :
    signExtend (rt >>> s) (32 - s) = 0 ↔ rt.toNat < 2 ^ s.toNat := by
  have hmasks : ∀ n : Fin 32,
      ((1 : U32) <<< (32 - BitVec.ofNat 32 n) - 1).toNat = 2 ^ (32 - n.val) - 1 := by
    decide
  have hmask := hmasks ⟨s.toNat, hs⟩
  rw [ofNat_toNat, setWidth_eq] at hmask
  have hand : rt >>> s &&& ((1 : U32) <<< (32 - s) - 1) = rt >>> s := by
    apply eq_of_toNat_eq
    rw [toNat_and, hmask, Nat.and_two_pow_sub_one_eq_mod, Nat.mod_eq_of_lt]
    rw [ushiftRight_eq', toNat_ushiftRight, Nat.shiftRight_eq_div_pow,
      Nat.div_lt_iff_lt_mul (Nat.two_pow_pos _), ← pow_add, Nat.sub_add_cancel hs.le]
    exact rt.isLt
  have hzero : rt >>> s = 0 ↔ rt.toNat < 2 ^ s.toNat := by
    rw [← toNat_inj, ushiftRight_eq', toNat_ushiftRight, Nat.shiftRight_eq_div_pow]
    exact Nat.div_eq_zero_iff_lt (Nat.two_pow_pos _)
  unfold signExtend
  dsimp only
  rw [hand, ← hzero]
  split
  case isTrue hsign =>
    exact or_eq_zero_iff.trans (and_iff_left_of_imp fun h => by simp [h] at hsign)
  case isFalse => rfl

lemma signExtend_shift_of_le {rs : U32} (hrs : 32 ≤ rs.toNat) (rt : U32) :
    signExtend (rt >>> rs) (32 - rs) = 0 := by
  have hlost : rt >>> rs = 0 := ushiftRight_eq_zero hrs
  rw [hlost]
  simp [signExtend]

lemma srav_eq_sra_iff (rs rt : U32) :
    signExtend (rt >>> rs) (32 - rs) = signExtend (rt >>> (rs &&& 0x1F)) (32 - (rs &&& 0x1F)) ↔
      rs.toNat < 32 ∨ rt.toNat < 2 ^ (rs.toNat % 32) := by
  have hmod : (rs &&& 0x1F).toNat = rs.toNat % 32 := Nat.and_two_pow_sub_one_eq_mod rs.toNat 5
  by_cases hrs : rs.toNat < 32
  · have hsame : rs &&& 0x1F = rs := eq_of_toNat_eq (hmod.trans (Nat.mod_eq_of_lt hrs))
    rw [hsame]
    exact iff_of_true rfl (.inl hrs)
  · have hzero := signExtend_shift_of_le (le_of_not_gt hrs) rt
    have hlt : (rs &&& 0x1F).toNat < 32 := hmod ▸ Nat.mod_lt _ (by decide)
    rw [hzero, eq_comm, signExtend_shift_eq_zero hlt, hmod, or_iff_right hrs]

/-- `sllv`, `srlv` and `srav` give what `sll`, `srl` and `sra` give with the register modulo 32 as
shift amount; `srav` if and only if the register is below 32 or no bit is left of the number. -/
structure ShiftsByRegister {ε : Type} (execute : U32 → U32 → U32 → U32 → U32 → U32 → Except ε U32)
    (insn insn' rs rs' rt mem : U32) : Prop where
  sllv : execute insn 0 4 rs rt mem = execute insn' 0 0 rs' rt mem
  srlv : execute insn 0 6 rs rt mem = execute insn' 0 2 rs' rt mem
  srav_iff : execute insn 0 7 rs rt mem = execute insn' 0 3 rs' rt mem ↔
    rs.toNat < 32 ∨ rt.toNat < 2 ^ (rs.toNat % 32)

theorem variable_shifts (insn insn' rs rs' rt mem : U32)
    (hshamt : (insn' >>> 6) &&& 0x1F = rs &&& 0x1F) :
    ShiftsByRegister executeMipsInstruction insn insn' rs rs' rt mem ∧
      ShiftsByRegister MIPSInstructions.executeMipsInstruction insn insn' rs rs' rt mem := by
  refine ⟨⟨?_, ?_, ?_⟩, ?_, ?_, ?_⟩
  · exact congrArg (fun s => Except.ok (rt <<< s)) hshamt.symm
  · exact congrArg (fun s => Except.ok (rt >>> s)) hshamt.symm
  · change Except.ok (signExtend _ _) = Except.ok (signExtend _ _) ↔ _
    rw [Except.ok.injEq, hshamt, srav_eq_sra_iff]
  · exact congrArg (fun s => Except.ok (rt <<< s)) hshamt.symm
  · exact congrArg (fun s => Except.ok (rt >>> s)) hshamt.symm
  · change Except.ok (MIPSInstructions.signExtend _ _) =
      Except.ok (MIPSInstructions.signExtend _ _) ↔ _
    rw [Except.ok.injEq, MIPSInstructions.signExtend_eq, MIPSInstructions.signExtend_eq, hshamt,
      srav_eq_sra_iff]

theorem variable_shifts_by_one :
    executeMipsInstruction 0 0 7 1 0x80000000 0 = executeMipsInstruction 0x40 0 3 0 0x80000000 0 :=
  (variable_shifts 0 0x40 1 0 0x80000000 0 rfl).1.srav_iff.mpr (.inl (by decide))

/-- Shifting by 33 gives zero. -/
theorem srav_by_33 :
    executeMipsInstruction 0 0 7 33 0x80000000 0 = .ok 0 ∧
      executeMipsInstruction 0x40 0 3 33 0x80000000 0 = .ok 0xC0000000 ∧
      MIPSInstructions.executeMipsInstruction 0 0 7 33 0x80000000 0 = .ok 0 ∧
      MIPSInstructions.executeMipsInstruction 0x40 0 3 33 0x80000000 0 = .ok 0xC0000000 := by
  have hzero : signExtend ((0x80000000 : U32) >>> (33 : U32)) (32 - 33) = 0 :=
    signExtend_shift_of_le (by decide) _
  refine ⟨congrArg Except.ok hzero, by decide, ?_, by decide⟩
  exact congrArg Except.ok ((MIPSInstructions.signExtend_eq _ _).trans hzero)

end FightNight.Cannon
