import FightNight.Library.Bytes
import FightNight.Library.Checked

/-!
# Reading a byte string from the front

A reader takes bytes from the front of a byte string and returns what it has read with the rest.  A
format is specified by what it writes: the lemmas `…_eq_ok` say, for each reader, that it succeeds
exactly on the byte strings that begin with what is written for its result.  They are chained through
a sequence of readers by `bind_eq_ok`.
-/

namespace FightNight

open List UInt8

/-- Why a read from a byte string fails: there is nothing left, or not enough. -/
inductive ReadError where
  | eof
  | unexpectedEOF
  deriving DecidableEq

/-- A reader that fails with errors of type `E`. -/
abbrev Reader (E α : Type) := StateT Bytes (Except E) α

namespace Reader

variable {E α β : Type}

variable {bs bs' rest : Bytes} {wrap : ReadError → E} {r x : Reader E α} {write : α → Bytes}
  {f : α → Reader E β} {done l : List α} {E' : Type} {c : Prop} {fuel n : ℕ} {P : α → Prop} {b : β}
  {a : α} {e : E}

lemma bind_eq_ok :
    (x >>= f) bs = .ok (b, rest) ↔ ∃ a bs', x bs = .ok (a, bs') ∧ f a bs' = .ok (b, rest) := by
  change (x bs >>= fun p => f p.1 p.2) = .ok (b, rest) ↔ _
  rw [Except.bind_eq_ok, Prod.exists]

lemma andThen (h : x bs = .ok (a, bs')) (h' : f a bs' = .ok (b, rest)) :
    (x >>= f) bs = .ok (b, rest) :=
  bind_eq_ok.mpr ⟨a, bs', h, h'⟩

lemma bind_of_ok (h : x bs = .ok (a, bs')) : (x >>= f) bs = f a bs' := by
  change (x bs >>= fun p => f p.1 p.2) = f a bs'
  rw [h, Except.ok_bind]

lemma pure_eq_ok {b : α} : (pure a : Reader E α) bs = .ok (b, rest) ↔ a = b ∧ bs = rest := by
  change (Except.ok (a, bs) : Except E _) = .ok (b, rest) ↔ _
  rw [Except.ok.injEq, Prod.mk.injEq]

/-- Fail. -/
def fail (e : E) : Reader E α := fun _ => .error e

lemma fail_eq_ok {r : α × Bytes} : (fail e : Reader E α) bs = .ok r ↔ False := by
  constructor
  · exact fun h => nomatch h
  · exact False.elim

/-- Fail if a condition holds. -/
def failIf (c : Prop) [Decidable c] (e : E) : Reader E Unit := if c then fail e else pure ()

lemma failIf_eq_ok [Decidable c] {u : Unit} : failIf c e bs = .ok (u, rest) ↔ ¬c ∧ bs = rest := by
  by_cases hc : c
  · rw [failIf, if_pos hc, fail_eq_ok]
    exact ⟨False.elim, fun h => h.1 hc⟩
  · rw [failIf, if_neg hc, pure_eq_ok]
    exact ⟨fun h => ⟨hc, h.2⟩, fun h => ⟨rfl, h.2⟩⟩

lemma failIf_andThen [Decidable c] {f : Unit → Reader E β} (hc : ¬c) (h : f () bs = .ok (b, rest)) :
    (failIf c e >>= f) bs = .ok (b, rest) :=
  andThen (failIf_eq_ok.mpr ⟨hc, rfl⟩) h

lemma failIf_bind [Decidable c] (hc : c) (e : E) (f : Unit → Reader E β) (bs : Bytes) :
    (failIf c e >>= f) bs = .error e := by
  rw [failIf, if_pos hc]
  rfl

/-- Exactly `n` bytes. -/
def readFull (wrap : ReadError → E) (n : ℕ) : Reader E Bytes := fun bs =>
  if n ≤ bs.length then .ok (bs.take n, bs.drop n)
  else .error (wrap (if bs = [] then .eof else .unexpectedEOF))

lemma readFull_eq_ok {a : Bytes} :
    readFull wrap n bs = .ok (a, rest) ↔ a.length = n ∧ bs = a ++ rest := by
  constructor
  · intro h
    by_cases hn : n ≤ bs.length
    · rw [readFull, if_pos hn] at h
      cases h
      exact ⟨length_take_of_le hn, (take_append_drop n bs).symm⟩
    · rw [readFull, if_neg hn] at h
      cases h
  · rintro ⟨rfl, rfl⟩
    rw [readFull, if_pos (by simp), take_left, drop_left]

/-- Exactly `n` bytes, into an array of this length. -/
def readFixed (wrap : ReadError → E) (n : ℕ) : Reader E (FixedBytes n) := fun bs =>
  if h : n ≤ bs.length then .ok (⟨bs.take n, List.length_take_of_le h⟩, bs.drop n)
  else .error (wrap (if bs = [] then .eof else .unexpectedEOF))

lemma readFixed_eq_ok {a : FixedBytes n} :
    readFixed wrap n bs = .ok (a, rest) ↔ bs = a.1 ++ rest := by
  obtain ⟨a, ha⟩ := a
  constructor
  · intro h
    by_cases hn : n ≤ bs.length
    · rw [readFixed, dif_pos hn] at h
      obtain ⟨hfirst, rfl⟩ := Prod.mk.inj (Except.ok.inj h)
      obtain rfl := Subtype.mk.inj hfirst
      exact (take_append_drop n bs).symm
    · rw [readFixed, dif_neg hn] at h
      cases h
  · grind [readFixed, take_left, drop_left]

/-- A number in `k` bytes, the highest first. -/
def readUint (wrap : ReadError → E) (k : ℕ) : Reader E ℕ := do
  let bs ← readFull wrap k
  pure (beNat bs)

lemma readUint_eq_ok {k : ℕ} :
    readUint wrap k bs = .ok (n, rest) ↔ n < 256 ^ k ∧ bs = beBytes k n ++ rest := by
  simp only [readUint, bind_eq_ok, readFull_eq_ok, pure_eq_ok]
  constructor
  · rintro ⟨a, _, ⟨rfl, rfl⟩, rfl, rfl⟩
    exact ⟨beNat_lt a, by rw [beBytes_beNat]⟩
  · rintro ⟨hn, rfl⟩
    exact ⟨_, _, ⟨length_beBytes k n, rfl⟩, beNat_beBytes_of_lt hn, rfl⟩

/-- One byte. -/
def readByte (wrap : ReadError → E) : Reader E UInt8
  | [] => .error (wrap .eof)
  | b :: rest => .ok (b, rest)

lemma readByte_eq_ok {b : UInt8} : readByte wrap bs = .ok (b, rest) ↔ bs = b :: rest := by
  cases bs with
  | nil => simp [readByte]
  | cons c bs => simp [readByte]

/-! ## Numbers of variable length -/

/-- A number in groups of seven bits, the lowest first; all bytes but the last have their high bit
set.  There are at most `n + 1` of them. -/
def putUvarint : ℕ → ℕ → Bytes
  | 0, x => [ofNat x]
  | n + 1, x =>
    if 128 ≤ x then ofNat (x % 128 + 128) :: putUvarint n (x / 128) else [ofNat x]

/-- A 64-bit number in groups of seven bits. -/
def uvarint (x : ℕ) : Bytes := putUvarint 9 x

/-- A number in at most `n` groups of seven bits; the last group has one bit.  The end of the input is
not expected inside the number. -/
def readGroups (wrap : ReadError → E) (overflow : E) : Bool → ℕ → Reader E ℕ
  | _, 0 => fail overflow
  | inside, n + 1 => do
    let b ← readByte fun e => wrap (if inside then .unexpectedEOF else e)
    if b.toNat < 128 then do
      failIf (n = 0 ∧ 1 < b.toNat) overflow
      pure b.toNat
    else do
      let x ← readGroups wrap overflow true n
      pure (b.toNat % 128 + 128 * x)

/-- A 64-bit number in groups of seven bits. -/
def readUvarint (wrap : ReadError → E) (overflow : E) : Reader E ℕ :=
  readGroups wrap overflow false 10

lemma readGroups_putUvarint (wrap : ReadError → E) (overflow : E) (inside : Bool) (n : ℕ) {x : ℕ}
    (hx : x < 2 ^ (7 * n + 1)) (rest : Bytes) :
    readGroups wrap overflow inside (n + 1) (putUvarint n x ++ rest) = .ok (x, rest) := by
  have hone : ∀ {n x : ℕ} {inside : Bool}, x < 128 → (n = 0 → x < 2) →
      readGroups wrap overflow inside (n + 1) ([ofNat x] ++ rest) = .ok (x, rest) := by
    intro n x inside hx hlast
    have hbyte : (ofNat x).toNat = x := toNat_ofNat_of_lt' (by show _ < 256; omega)
    refine bind_eq_ok.mpr ⟨ofNat x, rest, rfl, ?_⟩
    rw [hbyte, if_pos hx]
    exact bind_eq_ok.mpr ⟨(), rest, failIf_eq_ok.mpr ⟨by omega, rfl⟩, rfl⟩
  induction n generalizing x inside with
  | zero => exact hone (by omega) fun _ => hx
  | succ n ih =>
    by_cases hlast : 128 ≤ x
    · have hbyte : (ofNat (x % 128 + 128)).toNat = x % 128 + 128 :=
        toNat_ofNat_of_lt' (by show _ < 256; omega)
      have hdiv : x / 128 < 2 ^ (7 * n + 1) := by
        rw [Nat.div_lt_iff_lt_mul (by decide)]
        calc x < 2 ^ (7 * (n + 1) + 1) := hx
          _ = 2 ^ (7 * n + 1) * 2 ^ 7 := by rw [← pow_add, Nat.mul_succ]
      rw [putUvarint, if_pos hlast]
      refine bind_eq_ok.mpr ⟨_, _, rfl, ?_⟩
      rw [hbyte]
      refine bind_eq_ok.mpr ⟨_, _, ih true hdiv, pure_eq_ok.mpr ⟨?_, rfl⟩⟩
      omega
    · grind [putUvarint]

lemma readUvarint_uvarint (wrap : ReadError → E) (overflow : E) {x : ℕ} (hx : x < 2 ^ 64)
    (rest : Bytes) : readUvarint wrap overflow (uvarint x ++ rest) = .ok (x, rest) :=
  readGroups_putUvarint wrap overflow false 9 hx rest

lemma uvarint_ne_nil (x : ℕ) : uvarint x ≠ [] := by
  rw [uvarint, putUvarint]
  split <;> exact cons_ne_nil _ _

lemma length_le_uvarints (xs : List ℕ) : xs.length ≤ ((xs.map uvarint).flatten).length := by
  induction xs with
  | nil => exact le_refl _
  | cons x xs ih =>
    have hpos := length_pos_iff.mpr (uvarint_ne_nil x)
    rw [map_cons, flatten_cons, length_append, length_cons]
    omega

/-! ## Reading several items -/

/-- Read `n` items. -/
def readMany (r : Reader E α) : ℕ → Reader E (List α)
  | 0 => pure []
  | n + 1 => do
    let a ← r
    let l ← readMany r n
    pure (a :: l)

lemma readMany_write (hr : ∀ a ∈ l, ∀ rest, r (write a ++ rest) = .ok (a, rest)) (rest : Bytes) :
    readMany r l.length ((l.map write).flatten ++ rest) = .ok (l, rest) := by
  induction l with
  | nil => rfl
  | cons a l ih =>
    have htail := ih fun b hb => hr b (mem_cons_of_mem _ hb)
    rw [map_cons, flatten_cons, append_assoc]
    exact bind_eq_ok.mpr ⟨a, _, hr a mem_cons_self _, bind_eq_ok.mpr ⟨l, rest, htail, rfl⟩⟩

/-! ## Reading to the end -/

/-- Read one item after the other until nothing is left.  The error of an item is wrapped with the
number of items before it; a reader that takes nothing would not come to an end. -/
def readAll {E' : Type} (r : Reader E α) (wrap : ℕ → E → E') (stuck : E') :
    ℕ → List α → Bytes → Except E' (List α)
  | _, done, [] => .ok done
  | 0, _, _ :: _ => .error stuck
  | fuel + 1, done, b :: bs =>
    match r (b :: bs) with
    | .error e => .error (wrap done.length e)
    | .ok (a, rest) => readAll r wrap stuck fuel (done ++ [a]) rest

lemma readAll_nil {wrap : ℕ → E → E'} {stuck : E'} (fuel : ℕ) (done : List α) :
    readAll r wrap stuck fuel done [] = .ok done := by
  cases fuel <;> rfl

lemma readAll_nil_iff {wrap : ℕ → E → E'} {stuck : E'} (hwrite : ∀ a, P a → write a ≠ []) :
    readAll r wrap stuck fuel done [] = .ok l ↔
      ∃ next, l = done ++ next ∧ (∀ a ∈ next, P a) ∧ [] = (next.map write).flatten := by
  rw [readAll_nil, Except.ok.injEq]
  constructor
  · rintro rfl
    exact ⟨[], (append_nil _).symm, nofun, rfl⟩
  · rintro ⟨next, rfl, hnext, hbytes⟩
    cases next with
    | nil => rw [append_nil]
    | cons a next =>
      exact absurd (append_eq_nil_iff.mp hbytes.symm).1 (hwrite a (hnext a mem_cons_self))

lemma readAll_write {wrap : ℕ → E → E'} {stuck : E'}
    (hr : ∀ a ∈ l, ∀ rest, r (write a ++ rest) = .ok (a, rest)) (hwrite : ∀ a ∈ l, write a ≠ [])
    (hfuel : (l.map write).flatten.length ≤ fuel) (done : List α) :
    readAll r wrap stuck fuel done (l.map write).flatten = .ok (done ++ l) := by
  induction l generalizing fuel done with
  | nil => rw [map_nil, flatten_nil, readAll_nil, append_nil]
  | cons a l ih =>
    obtain ⟨b, bs, hab⟩ := exists_cons_of_ne_nil (hwrite a mem_cons_self)
    have hread := hr a mem_cons_self (l.map write).flatten
    rw [map_cons, flatten_cons, length_append] at hfuel
    rw [map_cons, flatten_cons]
    rw [hab, cons_append] at hread ⊢
    rw [hab, length_cons] at hfuel
    obtain ⟨fuel, rfl⟩ := Nat.exists_eq_add_one.mpr (lt_of_lt_of_le (Nat.succ_pos _)
      (le_trans (Nat.le_add_right _ _) hfuel))
    rw [readAll, hread]
    dsimp only
    rw [ih (fun c hc => hr c (mem_cons_of_mem _ hc))
      (fun c hc => hwrite c (mem_cons_of_mem _ hc)) (by omega), append_assoc, singleton_append]

/-- If the items are read back as they are written, then a byte string is read to its end exactly when
it is what is written for the items. -/
theorem readAll_eq_ok {wrap : ℕ → E → E'} {stuck : E'}
    (hr : ∀ bs a rest, r bs = .ok (a, rest) ↔ P a ∧ bs = write a ++ rest)
    (hwrite : ∀ a, P a → write a ≠ []) (hfuel : bs.length ≤ fuel) :
    readAll r wrap stuck fuel done bs = .ok l ↔
      ∃ next, l = done ++ next ∧ (∀ a ∈ next, P a) ∧ bs = (next.map write).flatten := by
  induction fuel generalizing done bs with
  | zero =>
    obtain rfl := length_eq_zero_iff.mp (Nat.le_zero.mp hfuel)
    exact readAll_nil_iff hwrite
  | succ fuel ih =>
    cases bs with
    | nil => exact readAll_nil_iff hwrite
    | cons b bs =>
      constructor
      · intro h
        rw [readAll] at h
        split at h
        · cases h
        · rename_i a rest hread
          obtain ⟨ha, hbytes⟩ := (hr _ _ _).mp hread
          have hlen := congrArg length hbytes
          have hpos := length_pos_iff.mpr (hwrite a ha)
          rw [length_append] at hlen
          obtain ⟨next, rfl, hnext, rfl⟩ := (ih (by omega)).mp h
          refine ⟨a :: next, by rw [append_assoc, singleton_append], ?_, ?_⟩
          · exact forall_mem_cons.mpr ⟨ha, hnext⟩
          · grind
      · rintro ⟨next, rfl, hnext, hbytes⟩
        rw [hbytes]
        exact readAll_write (fun a ha rest => (hr _ _ _).mpr ⟨hnext a ha, rfl⟩)
          (fun a ha => hwrite a (hnext a ha)) (hbytes ▸ hfuel) done

end Reader

end FightNight
