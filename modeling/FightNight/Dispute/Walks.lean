import FightNight.Dispute.Claims

/-!
# Walks up the claims

`_findTraceAncestor` looks for the claim about the state next to the one that a claim is about: it
computes the position of this claim and follows the parent indices until it finds it.  In every
game that can be reached, the neighbours of a claim are among the claims above it, so that no walk
gets beyond the root.
-/

namespace FightNight.Dispute

open Option FightNight.Except Forest
open List hiding getElem?_eq_some_iff
open Preimage (Hash)
open Bisection LibPosition ClaimData Game

variable {env : GameEnv} {s : Game} {i : ℕ} {c : ClaimData}

/-! ## Searching a line -/

variable {M : List ClaimData} {a o r : ClaimData} {pos visits : ℕ}

section

variable (h : Tree env s.claimData)
include h

lemma walkTo_eq_ok {target : ℕ} (hvis : i < visits)
    (hfind : (lineage parentIndex s.claimData i).find? (fun c => c.position = target) = some a) :
    s.walkTo target visits i = .ok a := by
  induction visits generalizing i with
  | zero => exact absurd hvis (Nat.not_lt_zero i)
  | succ visits ih =>
    cases hc : s.claimData[i]? with
    | none =>
      rw [lineage_of_none hc] at hfind
      cases hfind
    | some c =>
      obtain ⟨l, hl, hroot, hup⟩ := h.lineage_cons hc
      rw [hl] at hfind
      rw [walkTo, claimAt_eq_ok.mpr hc, ok_bind]
      by_cases hpos : c.position = target
      · rw [find?_cons_of_pos (by simpa using hpos)] at hfind
        rw [if_pos hpos, some.inj hfind]
        rfl
      · rw [find?_cons_of_neg (by simpa using hpos)] at hfind
        have hi : i ≠ 0 := by
          intro hi
          rw [hroot.mpr hi] at hfind
          cases hfind
        rw [hup hi] at hfind
        rw [if_neg hpos]
        exact ih (lt_of_lt_of_le (h.parent_lt hc hi) (Nat.le_of_lt_succ hvis)) hfind

/-- A claim above the start that stands for the same leaf as a position is what a walk finds. -/
theorem Tree.findTraceAncestor {start : ℕ} {isGlobal : Bool}
    (hpos : pos ≠ 0) (hdepth : pos.log2 ≤ env.maxGameDepth)
    (ha : a ∈ lineage parentIndex s.claimData start)
    (hreach : reach env.maxGameDepth a.position = reach env.maxGameDepth pos)
    (hbound : isGlobal = false → env.splitDepth < pos.log2 ∧ env.splitDepth < a.position.log2) :
    traceAncestorPos env pos isGlobal = .ok a.position ∧
      s.findTraceAncestor env pos start isGlobal = .ok a := by
  have hmem : ∀ b ∈ lineage parentIndex s.claimData start, b ∈ s.claimData :=
    fun b hb => mem_of_mem_lineage hb
  have hmax : env.maxGameDepth ≤ 125 := env.maxGameDepth_le
  have hlt : pos < 2 ^ 126 :=
    lt_of_lt_of_le Nat.lt_log2_self (Nat.pow_le_pow_right (by decide) (by omega))
  have htgt : a.position = traceAncestor pos :=
    eq_traceAncestor hpos (by omega) hdepth (h.position (hmem a ha)).1 (h.depth_le a (hmem a ha)) hreach
  have hanc : traceAncestorPos env pos isGlobal = .ok a.position := by
    cases isGlobal with
    | true => rw [htgt]; rfl
    | false =>
      obtain ⟨hpos_lt, ha_lt⟩ := hbound rfl
      rw [← h.depth_eq (hmem a ha), htgt] at ha_lt
      rw [← LibPosition.depth_eq hpos (by omega)] at hpos_lt
      rw [htgt]
      exact traceAncestorBounded_eq hpos_lt ha_lt
  refine ⟨hanc, ?_⟩
  cases hc : s.claimData[start]? with
  | none =>
    rw [lineage_of_none hc] at ha
    cases ha
  | some c =>
    obtain ⟨l, hl, -, -⟩ := h.lineage_cons hc
    have hstart := (getElem?_eq_some_iff.mp hc).1
    rw [Game.findTraceAncestor, hanc]
    refine walkTo_eq_ok h (Nat.lt_succ_of_lt hstart) ?_
    rw [hl] at ha hmem ⊢
    refine (h.line hl).line.find?_eq one_pos
      (h.depth_le c (mem_of_getElem? hc)) ha fun b hb => ?_
    rw [decide_eq_true_iff]
    constructor
    · exact fun hb => by rw [hb]
    · exact (h.position (hmem b hb)).1.ext (h.position (hmem a ha)).1 (h.depth_le b (hmem b hb))
        (h.depth_le a (hmem a ha))

/-! ## Neighbours in the output game -/

section

variable (hc : s.claimData[i]? = some c)
include hc

lemma Tree.finds_next (hi : i ≠ 0) :
    ∃ a ∈ lineage parentIndex s.claimData i,
      (∀ D, c.position.log2 ≤ D → reach D a.position = reach D c.position + width D c.position) ∧
      traceAncestorPos env (c.position + 1) true = .ok a.position ∧
      s.findTraceAncestor env (c.position + 1) i true = .ok a := by
  obtain ⟨l, hl, hroot, -⟩ := h.lineage_cons hc
  have hne : l ≠ [] := fun h0 => hi (hroot.mp h0)
  have hline := (h.line hl).line
  have hdepth := h.depth_le c (mem_of_getElem? hc)
  obtain ⟨a, ha, -, hreach⟩ := hline.exists_right one_pos hne
  have ha' : a ∈ lineage parentIndex s.claimData i := hl ▸ mem_cons_of_mem _ ha
  have hsucc := log2_succ_of_even (h.position (mem_of_getElem? hc)).1.ne_zero
    (hline.even (by rwa [Ne, map_eq_nil_iff]))
  refine ⟨a, ha', fun D hD => (hreach D hD).trans (reach_succ hsucc), ?_⟩
  exact h.findTraceAncestor (Nat.succ_ne_zero _) (by rwa [hsucc]) ha' (hreach _ hdepth) nofun

lemma Tree.finds_prev (hfirst : c.position ≠ 2 ^ c.position.log2) :
    ∃ a ∈ lineage parentIndex s.claimData i,
      (∀ D, c.position.log2 ≤ D → reach D a.position + width D c.position = reach D c.position) ∧
      traceAncestorPos env (c.position - 1) true = .ok a.position ∧
      s.findTraceAncestor env (c.position - 1) i true = .ok a := by
  obtain ⟨l, hl, -, -⟩ := h.lineage_cons hc
  have hline := (h.line hl).line
  have hdepth := h.depth_le c (mem_of_getElem? hc)
  have hlow : 2 ^ c.position.log2 < c.position := lt_of_le_of_ne
    (Nat.log2_self_le (h.position (mem_of_getElem? hc)).1.ne_zero) hfirst.symm
  have hlog := hline.log2_eq_length
  rw [length_map] at hlog
  obtain ⟨a, ha, -, hreach⟩ := hline.exists_left one_pos (by rwa [← hlog, one_mul])
  have ha' : a ∈ lineage parentIndex s.claimData i := hl ▸ mem_cons_of_mem _ ha
  have hpow := Nat.two_pow_pos c.position.log2
  refine ⟨a, ha', fun D hD => (hreach D hD).symm ▸ reach_pred hlow, ?_⟩
  exact h.findTraceAncestor (by omega) (by rwa [log2_pred hlow]) ha' (hreach _ hdepth) nofun

/-! ## Neighbours in the execution game -/

lemma Tree.execLine (hdepth : env.splitDepth < c.position.log2) :
    ∃ q M T, lineage parentIndex s.claimData i = c :: M ++ T ∧
      q.log2 = env.splitDepth + 1 ∧ 0 < q ∧ T.length = env.splitDepth + 1 ∧
      Line q (c.position :: M.map ClaimData.position) := by
  obtain ⟨l, hl, -, -⟩ := h.lineage_cons hc
  have hstg := h.line hl
  have hlog := hstg.line.log2_eq_length
  obtain ⟨q, m, t, hsplit, hq, ht, hm⟩ := hstg.split (by rw [length_cons]; omega)
  rw [← map_cons, map_eq_append_iff] at hsplit
  obtain ⟨M, T, hMT, rfl, rfl⟩ := hsplit
  have hqlog := hq.log2_eq_length
  rw [ht] at hqlog
  have hqpos := (hq.canonical one_pos (.inl rfl)).ne_zero
  obtain ⟨c', M, rfl⟩ : ∃ c' M', M = c' :: M' := exists_cons_of_ne_nil (by rintro rfl; cases hm)
  cases hMT
  rw [length_map] at ht
  exact ⟨q, M, T, hl, hqlog, pos_of_ne_zero hqpos, ht, hm⟩

lemma Tree.ne_zero_of_depth (hdepth : 0 < c.position.log2) : i ≠ 0 := by
  rintro rfl
  obtain ⟨r, hr, -, hpos⟩ := h.root
  obtain rfl := some.inj (hc.symm.trans hr)
  rw [hpos] at hdepth
  exact absurd hdepth (by decide)

lemma Tree.mem_parent_line
    {T : List ClaimData} (hl : lineage parentIndex s.claimData i = c :: M ++ T)
    (hdepth : 0 < c.position.log2) (ha : a ∈ M) :
    a ∈ lineage parentIndex s.claimData c.parentIndex := by
  obtain ⟨l, hl', -, hup⟩ := h.lineage_cons hc
  rw [hl', cons_append, cons.injEq] at hl
  rw [← hup (h.ne_zero_of_depth hc hdepth), hl.2]
  exact mem_append_left _ ha

lemma Tree.execFinds_next (hdepth : env.splitDepth + 1 < c.position.log2) :
    ∃ a ∈ s.claimData, traceAncestorPos env (c.position + 1) false = .ok a.position ∧
      s.findTraceAncestor env (c.position + 1) c.parentIndex false = .ok a := by
  obtain ⟨q, M, T, hl, hqlog, hq, -, hline⟩ := h.execLine hc (by omega)
  have hlog := hline.log2_eq hq
  rw [length_map] at hlog
  have hM : M ≠ [] := by grind
  have hmax := h.depth_le c (mem_of_getElem? hc)
  have hsucc : (c.position + 1).log2 = c.position.log2 :=
    log2_succ_of_even (h.position (mem_of_getElem? hc)).1.ne_zero
      (hline.even (by rwa [Ne, map_eq_nil_iff]))
  obtain ⟨a, ha, -, hreach⟩ := hline.exists_right hq hM
  have halow := hline.le_log2 hq a.position (mem_cons_of_mem _ (mem_map_of_mem ha))
  have ha' := h.mem_parent_line hc hl (by omega) ha
  refine ⟨a, mem_of_mem_lineage ha', ?_⟩
  refine h.findTraceAncestor (Nat.succ_ne_zero _) (by rwa [hsucc]) ha' (hreach _ hmax) fun _ => ?_
  omega

/-- The neighbour to the left of a claim that is not the first one of its depth in its execution
game. -/
theorem Tree.execFinds_prev (hdepth : env.splitDepth + 1 < c.position.log2)
    (hfirst : ∀ q, c.position ≠ q * 2 ^ (c.position.log2 - (env.splitDepth + 1))) :
    ∃ a ∈ s.claimData, traceAncestorPos env (c.position - 1) false = .ok a.position ∧
      s.findTraceAncestor env (c.position - 1) c.parentIndex false = .ok a := by
  obtain ⟨q, M, T, hl, hqlog, hq, -, hline⟩ := h.execLine hc (by omega)
  have hlog := hline.log2_eq hq
  rw [length_map] at hlog
  have hlen : c.position.log2 - (env.splitDepth + 1) = M.length := by omega
  have hne : c.position ≠ q * 2 ^ M.length := hlen ▸ hfirst q
  have hmax := h.depth_le c (mem_of_getElem? hc)
  have hlow : 2 ^ c.position.log2 < c.position := by
    refine lt_of_le_of_ne
      (Nat.log2_self_le (h.position (mem_of_getElem? hc)).1.ne_zero) fun heq => ?_
    refine hfirst (2 ^ (env.splitDepth + 1)) ?_
    rw [← pow_add, Nat.add_sub_cancel' (le_of_lt hdepth), heq]
  obtain ⟨a, ha, -, hreach⟩ := hline.exists_left hq hne
  have halow := hline.le_log2 hq a.position (mem_cons_of_mem _ (mem_map_of_mem ha))
  have ha' := h.mem_parent_line hc hl (by omega) ha
  have hpred := log2_pred hlow
  have hpow := Nat.two_pow_pos c.position.log2
  refine ⟨a, mem_of_mem_lineage ha', ?_⟩
  refine h.findTraceAncestor (by omega) (by rwa [hpred]) ha' (hreach _ hmax) fun _ => ?_
  omega

/-! ## The root of an execution game -/

/-- The line of a claim below the split passes through the root `r` of an execution game and then
through the output claim `o` that it was moved from. -/
structure SplitAt (env : GameEnv) (s : Game) (i : ℕ) (r o : ClaimData) (M : List ClaimData) :
    Prop where
  output_eq : s.claimData[r.parentIndex]? = some o
  output_depth : o.position.log2 = env.splitDepth
  move : r.position = 2 * o.position ∨
    r.position = 2 * (o.position + 1) ∧ r.parentIndex ≠ 0
  line_eq : lineage parentIndex s.claimData i =
    M ++ r :: lineage parentIndex s.claimData r.parentIndex

/-- The loop up to the split ends at the output claim that an execution game is about. -/
theorem walkAboveSplit_ok
    (hdepth : env.splitDepth < c.position.log2) (hvis : i < visits) (e : ClaimData) :
    ∃ r o M, s.walkAboveSplit env visits c i e = .ok ⟨r, o, r.parentIndex⟩ ∧
      SplitAt env s i r o M := by
  induction visits generalizing i c e with
  | zero => exact absurd hvis (Nat.not_lt_zero i)
  | succ visits ih =>
    have hi : i ≠ 0 := h.ne_zero_of_depth hc (by omega)
    obtain ⟨p, hp, hlog, hmove⟩ := h.exists_parent hc hi
    obtain ⟨l, hl, -, hup⟩ := h.lineage_cons hc
    rw [hup hi] at hl
    have hlt := h.parent_lt hc hi
    rw [walkAboveSplit, h.depth_eq (mem_of_getElem? hc), if_pos hdepth,
      claimAt_eq_ok.mpr hp, ok_bind]
    by_cases hroot : c.position.log2 = env.splitDepth + 1
    · rw [if_pos hroot]
      obtain ⟨visits, rfl⟩ : ∃ n, visits = n + 1 := Nat.exists_eq_succ_of_ne_zero (by omega)
      refine ⟨c, p, [], ?_, hp, by omega, hmove, hl⟩
      rw [walkAboveSplit, h.depth_eq (mem_of_getElem? hp), if_neg (by omega)]
      rfl
    · rw [if_neg hroot]
      obtain ⟨r, o, M, hwalk, hsplit⟩ := ih hp (by omega) (by omega) e
      refine ⟨r, o, c :: M, hwalk, hsplit.output_eq, hsplit.output_depth, hsplit.move, ?_⟩
      rw [hl, hsplit.line_eq, cons_append]

lemma SplitAt.div_eq (hsplit : SplitAt env s i r o M) (hdepth : env.splitDepth < c.position.log2) :
    c.position / 2 ^ (c.position.log2 - (env.splitDepth + 1)) = r.position := by
  obtain ⟨q, M', T, hl, hqlog, hq, hT, hline⟩ := h.execLine hc hdepth
  obtain ⟨l, hlo, -, -⟩ := h.lineage_cons hsplit.output_eq
  have hlog := (h.line hlo).line.log2_eq_length
  rw [length_map, hsplit.output_depth] at hlog
  -- Both ways to cut the line leave the same claims above the split.
  have hcut : c :: M' = M ++ [r] := by
    have heq := hl.symm.trans hsplit.line_eq
    rw [append_cons] at heq
    exact (append_inj' heq (by rw [hT, hlo, length_cons, hlog])).1
  have hlast : q = r.position := by
    obtain ⟨m, hm⟩ := hline.exists_concat
    have hmap := congrArg (map position) hcut
    rw [map_cons, hm, map_append] at hmap
    exact singleton_inj.mp (append_inj' hmap rfl).2
  have hdiv := hline.div_eq
  have hlogc := hline.log2_eq hq
  rw [← hlast, ← hdiv]
  congr 2
  omega

/-- A claim below an attack of the leaf is not to the right of it, one below a defence is. -/
theorem SplitAt.reach_output (hsplit : SplitAt env s i r o M)
    (hdepth : env.splitDepth < c.position.log2) :
    (r.position = 2 * o.position → c.position + 1 ≤ reach c.position.log2 o.position) ∧
      (r.position = 2 * (o.position + 1) →
        reach c.position.log2 o.position < c.position + 1) := by
  have hdiv := hsplit.div_eq h hc hdepth
  have hpow := Nat.two_pow_pos (c.position.log2 - (env.splitDepth + 1))
  have hreach : reach c.position.log2 o.position =
      2 * (o.position + 1) * 2 ^ (c.position.log2 - (env.splitDepth + 1)) := by
    have hexp : c.position.log2 - o.position.log2 = c.position.log2 - (env.splitDepth + 1) + 1 := by
      rw [hsplit.output_depth]
      omega
    rw [reach, hexp]
    ring
  constructor
  · intro hatk
    rw [hatk] at hdiv
    have hlt := Nat.lt_div_mul_add (a := c.position) hpow
    rw [hdiv] at hlt
    have hsum : 2 * (o.position + 1) * 2 ^ (c.position.log2 - (env.splitDepth + 1)) =
        2 * o.position * 2 ^ (c.position.log2 - (env.splitDepth + 1)) +
          2 * 2 ^ (c.position.log2 - (env.splitDepth + 1)) := by ring
    omega
  · intro hdef
    rw [hdef] at hdiv
    have hle := Nat.div_mul_le_self c.position (2 ^ (c.position.log2 - (env.splitDepth + 1)))
    rw [hdiv] at hle
    omega

end

end

/-- The outputs around an execution game, as `_findStartingAndDisputedOutputs` returns them. -/
inductive OutputsAt (env : GameEnv) (s : Game) (r o : ClaimData) : Outputs → Prop
  /-- An attack on the first output is about what comes after the anchor. -/
  | anchor (hattack : r.position = 2 * o.position) (hfirst : o.position = 2 ^ o.position.log2) :
    OutputsAt env s r o ⟨s.startingOutputRoot.root, 0, o.claim, o.position⟩
  | attack {a : ClaimData} (hattack : r.position = 2 * o.position)
    (ha : a ∈ lineage parentIndex s.claimData r.parentIndex)
    (hreach : reach env.splitDepth a.position + 1 = reach env.splitDepth o.position) :
    OutputsAt env s r o ⟨a.claim, a.position, o.claim, o.position⟩
  | defend {a : ClaimData} (hdefend : r.position = 2 * (o.position + 1))
    (ha : a ∈ lineage parentIndex s.claimData r.parentIndex)
    (hreach : reach env.splitDepth o.position + 1 = reach env.splitDepth a.position) :
    OutputsAt env s r o ⟨o.claim, o.position, a.claim, a.position⟩

lemma nextPosition_of_lt (h : pos < 2 ^ 126) :
    nextPosition pos = .ok (pos + 1) := if_pos (by omega)

lemma prevPosition_of_ne (h : pos ≠ 0) : prevPosition pos = .ok (pos - 1) :=
  Checked.sub_eq_ok.mpr ⟨pos_of_ne_zero h, rfl⟩

/-- Every claim below the split has its two outputs. -/
theorem Tree.findStartingAndDisputedOutputs (h : Tree env s.claimData)
    (hc : s.claimData[i]? = some c) (hdepth : env.splitDepth < c.position.log2) :
    ∃ r o M outputs, SplitAt env s i r o M ∧ OutputsAt env s r o outputs ∧
      s.findStartingAndDisputedOutputs env i = .ok outputs := by
  have hlen := (getElem?_eq_some_iff.mp hc).1
  obtain ⟨r, o, M, hwalk, hsplit⟩ := walkAboveSplit_ok h hc hdepth (Nat.lt_succ_of_lt hlen) c
  have ho := mem_of_getElem? hsplit.output_eq
  obtain ⟨hcan, hlt⟩ := h.position ho
  have hidx := indexAtDepth_eq hcan.ne_zero (lt_trans hlt (by decide))
  have hlow := Nat.log2_self_le hcan.ne_zero
  have hpar : parent r.position = r.position / 2 := by
    rw [parent, Word.shr, pow_one]
  have hcheck : ¬depth c.position ≤ env.splitDepth := by
    rw [h.depth_eq (mem_of_getElem? hc)]
    exact not_le_of_gt hdepth
  simp only [Game.findStartingAndDisputedOutputs, claimAt_eq_ok.mpr hc, ok_bind,
    revertIf_of_not hcheck, hwalk, decide_eq_true_eq]
  rcases hsplit.move with hatk | ⟨hdef, hroot⟩
  · rw [if_pos (by omega)]
    by_cases hfirst : o.position = 2 ^ o.position.log2
    · refine ⟨r, o, M, _, hsplit, .anchor hatk hfirst, ?_⟩
      rw [if_neg (by omega)]
      rfl
    · obtain ⟨a, ha, hreach, -, hfind⟩ := h.finds_prev hsplit.output_eq hfirst
      have hreach := hreach _ (le_refl _)
      rw [width_self, hsplit.output_depth] at hreach
      refine ⟨r, o, M, _, hsplit, .attack hatk ha hreach, ?_⟩
      rw [if_pos (by omega), prevPosition_of_ne hcan.ne_zero, ok_bind, hfind]
      rfl
  · obtain ⟨a, ha, hreach, -, hfind⟩ := h.finds_next hsplit.output_eq hroot
    have hreach := hreach _ (le_refl _)
    rw [width_self, hsplit.output_depth] at hreach
    refine ⟨r, o, M, _, hsplit, .defend hdef ha hreach.symm, ?_⟩
    rw [if_neg (by omega), nextPosition_of_lt hlt, ok_bind, hfind]
    rfl

/-- The node at the split depth above a claim. -/
def outputNode (env : GameEnv) (c : ClaimData) : ℕ :=
  c.position / 2 ^ (depth c.position - env.splitDepth)

lemma SplitAt.outputNode_eq (hsplit : SplitAt env s i r o M) (h : Tree env s.claimData)
    (hc : s.claimData[i]? = some c) (hdepth : env.splitDepth < c.position.log2) :
    outputNode env c = r.position / 2 := by
  have hexp : c.position.log2 - env.splitDepth = c.position.log2 - (env.splitDepth + 1) + 1 := by
    omega
  rw [outputNode, h.depth_eq (mem_of_getElem? hc), hexp, pow_succ, ← Nat.div_div_eq_div_mul,
    hsplit.div_eq h hc hdepth]

/-- The output that is disputed is the one at the node above the claim, and the starting one is
right before it. -/
theorem Tree.outputs_reach (h : Tree env s.claimData) (hc : s.claimData[i]? = some c)
    (hdepth : env.splitDepth < c.position.log2) {outputs : Outputs}
    (hfind : s.findStartingAndDisputedOutputs env i = .ok outputs) :
    outputs.disputedPos ≠ 0 ∧ outputs.disputedPos.log2 ≤ env.splitDepth ∧
      reach env.splitDepth outputs.disputedPos = outputNode env c + 1 ∧
      (outputs.startingPos ≠ 0 → outputs.startingPos.log2 ≤ env.splitDepth ∧
        reach env.splitDepth outputs.startingPos = outputNode env c) := by
  obtain ⟨r, o, M, outputs', hsplit, hout, hfind'⟩ := h.findStartingAndDisputedOutputs hc hdepth
  obtain rfl := Except.ok.inj (hfind.symm.trans hfind')
  obtain ⟨l, hl, -, -⟩ := h.lineage_cons hsplit.output_eq
  have hline := (h.line hl).line
  have hle : ∀ a ∈ o :: l, a.position ≠ 0 ∧ a.position.log2 ≤ env.splitDepth := by
    intro a ha
    refine ⟨(h.position (mem_of_mem_lineage (hl ▸ ha))).1.ne_zero, ?_⟩
    rw [← hsplit.output_depth]
    refine hline.log2_le _ ?_
    exact mem_map_of_mem ha
  have ho := hle o mem_cons_self
  have hself : reach env.splitDepth o.position = o.position + 1 := by
    rw [← hsplit.output_depth, reach_self]
  rw [hsplit.outputNode_eq h hc hdepth]
  cases hout with
  | anchor hatk _ =>
    have hnode : r.position / 2 = o.position := by omega
    exact ⟨ho.1, ho.2, hnode ▸ hself, fun h0 => absurd rfl h0⟩
  | @attack a hatk ha hreach =>
    have hnode : r.position / 2 = o.position := by omega
    have hstart : reach env.splitDepth a.position = r.position / 2 := by omega
    exact ⟨ho.1, ho.2, hnode ▸ hself, fun _ => ⟨(hle _ (hl ▸ ha)).2, hstart⟩⟩
  | defend hdef ha hreach =>
    have hnode : r.position / 2 = o.position + 1 := by omega
    have ha := hle _ (hl ▸ ha)
    rw [hself, ← hnode] at hreach
    exact ⟨ha.1, ha.2, hreach.symm, fun _ => ⟨ho.2, hself.trans hnode.symm⟩⟩

/-! ## The walks of a game -/

/-- The walks that calls start: for the state before a claim that is attacked by a step, unless it
is the first one of the execution game, for the state after a claim that is defended by a step, for
the output after the parent of the root of an execution game, and for the outputs around an
execution game whose local data is loaded. -/
inductive Walk (env : GameEnv) (s : Game) : ℕ → ℕ → Bool → Prop
  | stepAttack {i pos : ℕ} {c : ClaimData} (hc : s.claimData[i]? = some c)
    (hdepth : env.splitDepth + 1 < depth c.position)
    (hstep : depth (move c.position true) = env.maxGameDepth + 1)
    (hindex : indexAtDepth (move c.position true) %
      2 ^ (env.maxGameDepth - env.splitDepth) ≠ 0)
    (hpos : prevPosition c.position = .ok pos) : Walk env s pos c.parentIndex false
  | stepDefend {i pos : ℕ} {c : ClaimData} (hc : s.claimData[i]? = some c)
    (hdepth : env.splitDepth + 1 < depth c.position)
    (hstep : depth (move c.position false) = env.maxGameDepth + 1)
    (hpos : nextPosition c.position = .ok pos) : Walk env s pos c.parentIndex false
  | execRoot {i pos : ℕ} {c : ClaimData} {isAttack : Bool} (hc : s.claimData[i]? = some c)
    (hmove : depth (move c.position isAttack) = env.splitDepth + 1)
    (hpos : nextPosition c.position = .ok pos) : Walk env s pos i true
  | startingOutput {i pos : ℕ} {c : ClaimData} {split : SplitClaims}
    (hc : s.claimData[i]? = some c) (hdepth : env.splitDepth < depth c.position)
    (hsplit : s.walkAboveSplit env (s.claimData.length + 1) c i c = .ok split)
    (hattack : parent split.execRoot.position = split.output.position)
    (hindex : 0 < indexAtDepth split.output.position)
    (hpos : prevPosition split.output.position = .ok pos) : Walk env s pos split.outputIdx true
  | disputedOutput {i pos : ℕ} {c : ClaimData} {split : SplitClaims}
    (hc : s.claimData[i]? = some c) (hdepth : env.splitDepth < depth c.position)
    (hsplit : s.walkAboveSplit env (s.claimData.length + 1) c i c = .ok split)
    (hdefend : parent split.execRoot.position ≠ split.output.position)
    (hpos : nextPosition split.output.position = .ok pos) : Walk env s pos split.outputIdx true

lemma Tree.not_first (h : Tree env s.claimData) (hc : c ∈ s.claimData)
    (hlog : c.position.log2 = env.maxGameDepth) (hidx : indexAtDepth (move c.position true) %
      2 ^ (env.maxGameDepth - env.splitDepth) ≠ 0) (q : ℕ) :
    c.position ≠ q * 2 ^ (c.position.log2 - (env.splitDepth + 1)) := by
  intro hfirst
  obtain ⟨hcan, hlt⟩ := h.position hc
  have hmove := move_attack (p := c.position) (by omega)
  have hstep := (h.depth_move hc true).1
  have hsplit := env.splitDepth_lt
  have hdouble : 2 * c.position = q * 2 ^ (env.maxGameDepth - env.splitDepth) := by
    have hexp : env.maxGameDepth - env.splitDepth =
      env.maxGameDepth - (env.splitDepth + 1) + 1 := by omega
    rw [hfirst, hlog, hexp]
    ring
  have hpow : 2 ^ (env.maxGameDepth + 1) =
      2 ^ (env.splitDepth + 1) * 2 ^ (env.maxGameDepth - env.splitDepth) := by
    rw [← pow_add]
    congr 1
    omega
  apply hidx
  rw [indexAtDepth_eq, hstep, hmove, hlog, hdouble, hpow, ← Nat.sub_mul, Nat.mul_mod_left]
  · have := hcan.ne_zero
    omega
  · omega

/-- Every walk that a call starts ends at a claim with the position it looks for. -/
theorem trace_ancestor_walks (hsplit : 1 ≤ env.splitDepth) (hs : Reachable env s)
    {pos start : ℕ} {isGlobal : Bool} (hwalk : Walk env s pos start isGlobal) :
    ∃ target a, traceAncestorPos env pos isGlobal = .ok target ∧ a ∈ s.claimData ∧
      a.position = target ∧ s.findTraceAncestor env pos start isGlobal = .ok a := by
  have htree := hs.grown.tree
  cases hwalk with
  | @stepAttack i pos c hc hdepth hstep hidx hpos =>
    have hmem := mem_of_getElem? hc
    rw [htree.depth_eq hmem] at hdepth
    rw [(htree.depth_move hmem true).2] at hstep
    rw [prevPosition_of_ne (htree.position hmem).1.ne_zero, Except.ok.injEq] at hpos
    subst hpos
    obtain ⟨a, ha, htgt, hfind⟩ :=
      htree.execFinds_prev hc hdepth (htree.not_first hmem (by omega) hidx)
    exact ⟨a.position, a, htgt, ha, rfl, hfind⟩
  | @stepDefend i pos c hc hdepth hstep hpos =>
    have hmem := mem_of_getElem? hc
    rw [htree.depth_eq hmem] at hdepth
    rw [nextPosition_of_lt (htree.position hmem).2, Except.ok.injEq] at hpos
    subst hpos
    obtain ⟨a, ha, htgt, hfind⟩ := htree.execFinds_next hc hdepth
    exact ⟨a.position, a, htgt, ha, rfl, hfind⟩
  | @execRoot i pos c isAttack hc hmove hpos =>
    have hmem := mem_of_getElem? hc
    rw [(htree.depth_move hmem isAttack).2] at hmove
    rw [nextPosition_of_lt (htree.position hmem).2, Except.ok.injEq] at hpos
    subst hpos
    obtain ⟨a, ha, -, htgt, hfind⟩ := htree.finds_next hc (htree.ne_zero_of_depth hc (by omega))
    exact ⟨a.position, a, htgt, mem_of_mem_lineage ha, rfl, hfind⟩
  | @startingOutput i pos c split hc hdepth hwalk hatk hidx hpos =>
    have hmem := mem_of_getElem? hc
    rw [htree.depth_eq hmem] at hdepth
    have hlen := (getElem?_eq_some_iff.mp hc).1
    obtain ⟨r, o, M, hwalk', hat⟩ := walkAboveSplit_ok htree hc hdepth (Nat.lt_succ_of_lt hlen) c
    obtain rfl := Except.ok.inj (hwalk.symm.trans hwalk')
    obtain ⟨hcan, hlt⟩ := htree.position (mem_of_getElem? hat.output_eq)
    rw [prevPosition_of_ne hcan.ne_zero, Except.ok.injEq] at hpos
    subst hpos
    rw [indexAtDepth_eq hcan.ne_zero (lt_trans hlt (by decide))] at hidx
    obtain ⟨a, ha, -, htgt, hfind⟩ := htree.finds_prev hat.output_eq (by omega)
    exact ⟨a.position, a, htgt, mem_of_mem_lineage ha, rfl, hfind⟩
  | @disputedOutput i pos c split hc hdepth hwalk hdef hpos =>
    have hmem := mem_of_getElem? hc
    rw [htree.depth_eq hmem] at hdepth
    have hlen := (getElem?_eq_some_iff.mp hc).1
    obtain ⟨r, o, M, hwalk', hat⟩ := walkAboveSplit_ok htree hc hdepth (Nat.lt_succ_of_lt hlen) c
    obtain rfl := Except.ok.inj (hwalk.symm.trans hwalk')
    have ho := mem_of_getElem? hat.output_eq
    rw [nextPosition_of_lt (htree.position ho).2, Except.ok.injEq] at hpos
    subst hpos
    have hroot : r.parentIndex ≠ 0 :=
      htree.ne_zero_of_depth hat.output_eq (by have := hat.output_depth; omega)
    obtain ⟨a, ha, -, htgt, hfind⟩ := htree.finds_next hat.output_eq hroot
    exact ⟨a.position, a, htgt, mem_of_mem_lineage ha, rfl, hfind⟩

/-! ## Example games -/

/-- A library in which all powers are one. -/
def sampleLibrary : FixedPointMathLib where
  lnWad := fun _ => .ok 0
  expWad := fun _ => .ok wad
  powWad := fun _ _ => .ok wad
  le_expWad := fun _ h => Int.le_of_eq (Except.ok.inj h)
  powWad_bounds := fun _ _ h => Except.ok.inj h ▸ by decide

def sampleHash (status n : ℕ) : Hash := bytes32 (status * 2 ^ 248 + n)

/-- Games of small depth about the block after the anchor. -/
def sampleEnv (splitDepth maxGameDepth : ℕ) (hsplit : splitDepth < maxGameDepth)
    (hmax : maxGameDepth ≤ maxPositionBitlen - 1) : GameEnv where
  absolutePrestate := sampleHash 3 0
  maxGameDepth := maxGameDepth
  splitDepth := splitDepth
  maxClockDuration := 100
  clockExtension := 1
  l2ChainId := 10
  gameCreator := 1
  rootClaim := sampleHash 0 1
  l1Head := sampleHash 0 2
  l2BlockNumber := 1
  keccak256 := Hash.ofBytes
  fixedPoint := sampleLibrary
  maxGameDepth_le := hmax
  splitDepth_lt := hsplit
  clockExtension_le := by decide

/-- A transaction with a virtual machine that always answers the same. -/
def sampleTx (value timestamp : ℕ) : GameTx where
  sender := 1
  sender_ne_zero := by decide
  value := value
  timestamp := timestamp
  vm := fun _ _ _ => .ok (sampleHash 4 0)
  tryUpdateAnchorState := .ok ()

def sampleMove (disputed : Hash) (i : ℕ) (claim : Hash) (isAttack : Bool) : GameTx × GameCall :=
  (sampleTx (8 * 10 ^ 16) 0, .move disputed i claim isAttack)

def sampleGame (env : GameEnv) : Game :=
  match created env (sampleTx 0 0) ⟨sampleHash 0 3, 0⟩ with
  | .ok s => s
  | .error _ => .deployed

/-- Three attacks, down to the greatest depth. -/
def walkCalls : List (GameTx × GameCall) :=
  [sampleMove (sampleHash 0 1) 0 (sampleHash 1 4) true,
    sampleMove (sampleHash 1 4) 1 (sampleHash 1 5) true,
    sampleMove (sampleHash 1 5) 2 (sampleHash 1 6) true]

def walkEnv : GameEnv := sampleEnv 1 3 (by decide) (by decide)

def walkGame : Game := Run.runAll (exec walkEnv) walkCalls (sampleGame walkEnv)

lemma walkGame_reachable : Reachable walkEnv walkGame :=
  ⟨sampleTx 0 0, ⟨sampleHash 0 3, 0⟩, sampleGame walkEnv, walkCalls, rfl, rfl⟩

lemma walkGame_claim : ∃ c, walkGame.claimData[3]? = some c ∧ c.position = 8 ∧ c.parentIndex = 2 := by
  have hclaim : walkGame.claimData[3]?.map (fun c => (c.position, c.parentIndex)) = some (8, 2) := by
    decide
  obtain ⟨c, hc, hboth⟩ := map_eq_some_iff.mp hclaim
  obtain ⟨hpos, hpar⟩ := Prod.mk.inj hboth
  exact ⟨c, hc, hpos, hpar⟩

/-- The walk for a defence of the last claim. -/
theorem trace_ancestor_walks_sample :
    Walk walkEnv walkGame 9 2 false ∧ ∃ target a,
      traceAncestorPos walkEnv 9 false = .ok target ∧ a ∈ walkGame.claimData ∧
      a.position = target ∧ walkGame.findTraceAncestor walkEnv 9 2 false = .ok a := by
  obtain ⟨c, hc, hpos, hpar⟩ := walkGame_claim
  have hwalk : Walk walkEnv walkGame 9 c.parentIndex false := by
    refine .stepDefend hc ?_ ?_ ?_ <;> rw [hpos]
    · decide
    · decide
    · rfl
  rw [hpar] at hwalk
  exact ⟨hwalk, trace_ancestor_walks (by decide) walkGame_reachable hwalk⟩

/-- In every game that calls lead to, a claim other than the root attacks or defends one before it, one
level deeper and not below the depth of the game; the root is not defended. -/
theorem claims_form_tree (h : Reachable env s) (hc : s.claimData[i]? = some c) (hi : i ≠ 0) :
    ∃ p, s.claimData[c.parentIndex]? = some p ∧ c.parentIndex < i ∧
      c.position.log2 = p.position.log2 + 1 ∧ c.position.log2 ≤ env.maxGameDepth ∧
      (c.position = 2 * p.position ∨ c.position = 2 * (p.position + 1) ∧ c.parentIndex ≠ 0) := by
  have htree := h.grown.tree
  obtain ⟨p, hp, hdepth, hmove⟩ := htree.exists_parent hc hi
  exact ⟨p, hp, htree.parent_lt hc hi, hdepth, htree.depth_le c (mem_of_getElem? hc), hmove⟩

theorem claims_form_tree_sample :
    ∃ p, walkGame.claimData[2]? = some p ∧ (8 = 2 * p.position ∨ 8 = 2 * (p.position + 1)) := by
  obtain ⟨c, hc, hpos, hpar⟩ := walkGame_claim
  obtain ⟨p, hp, -, -, -, hmove⟩ := claims_form_tree walkGame_reachable hc (by decide)
  rw [hpos, hpar] at hmove
  exact ⟨p, hpar ▸ hp, hmove.imp_right And.left⟩

end FightNight.Dispute
