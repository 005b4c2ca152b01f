/-
Module: Rpi4Kernel.Proofs.ItoaSpec
Layer: Proofs
Purpose: The strings that `itoa1` and `itoa` leave in their buffers. Each loop is followed over a
  buffer in three parts: what the loop has left behind, what it still writes, and what it does not
  touch.
Trusted boundary: none (fully proved)
Main exports: itoa1DivideLoop_spec, itoa1ReverseLoop_spec, numeral, itoa1_spec, itoaLoop_spec,
  itoa_spec, itoa_canonical
-/
import Mathlib.Data.List.Induction
import Mathlib.Tactic.IntervalCases
import Mathlib.Tactic.NormNum
import Rpi4Kernel.Stdlib.Itoa
import Rpi4Kernel.Theory.Numerals

namespace Rpi4Kernel.Stdlib

open Rpi4Kernel.Theory

/-! ### Buffers in parts -/

theorem set_append_cons (front back : List Char) (x c : Char) :
    (front ++ x :: back).set front.length c = front ++ c :: back := by
  rw [List.set_append_right _ _ le_rfl, Nat.sub_self, List.set_cons_zero]

theorem store_append_cons (front back : List Char) (x c : Char) :
    store (front ++ x :: back) front.length c = some (front ++ c :: back) := by
  rw [store, if_pos (by simp), set_append_cons]

theorem storeBefore_append_cons (front back : List Char) (x c : Char) :
    storeBefore (front ++ x :: back) (front.length + 1) c =
      some (front ++ c :: back, front.length) := by
  simp only [storeBefore, store_append_cons, Option.map_some]

/-- A string in a buffer. -/
theorem stringAt_append (front : List Char) {s back : List Char} (hs : nul ∉ s) :
    stringAt (front ++ (s ++ nul :: back)) front.length = some s := by
  have hprefix : ∀ c ∈ s, decide (c ≠ nul) = true := fun c hc =>
    decide_eq_true fun heq => hs (heq ▸ hc)
  rw [stringAt, List.drop_left, if_pos (by simp), List.takeWhile_append_of_pos hprefix]
  simp

/-! ### The loops of `itoa1` -/

theorem digitByte_eq {d : Nat} (h : d < 16) : digitByte d = Nat.digitChar d := by
  have hall : ∀ d < 16, digitByte d = Nat.digitChar d := by decide
  exact hall d h

/-- The first loop writes the digits of `ud` from the last one on. -/
theorem itoa1DivideLoop_spec {divisor : Nat} (hdivisor : 1 < divisor) (hsmall : divisor ≤ 16)
    (front slots back : List Char) (ud fuel : Nat)
    (hslots : slots.length = (Nat.toDigits divisor ud).length) (hfuel : slots.length ≤ fuel) :
    itoa1DivideLoop divisor fuel (front ++ (slots ++ back)) front.length ud =
      some (front ++ ((Nat.toDigits divisor ud).reverse ++ back), front.length + slots.length) := by
  induction fuel generalizing front slots ud with
  | zero =>
      have hpos : 0 < (Nat.toDigits divisor ud).length := Nat.length_toDigits_pos
      omega
  | succ fuel ih =>
      have hdigit : digitByte (ud % divisor) = Nat.digitChar (ud % divisor) :=
        digitByte_eq (lt_of_lt_of_le (Nat.mod_lt _ (by omega)) hsmall)
      rw [eq_comm, ← List.length_reverse, toDigits_reverse hdivisor, eq_comm] at hslots
      rw [toDigits_reverse hdivisor, itoa1DivideLoop]
      cases slots with
      | nil =>
          split at hslots <;> simp at hslots
      | cons x slots =>
          simp only [List.cons_append, store_append_cons, Option.bind_eq_bind, Option.bind_some, hdigit]
          by_cases hlt : ud < divisor
          · rw [if_pos hlt] at hslots ⊢
            obtain rfl : slots = [] := by simpa using hslots
            rw [if_neg (by simp [Nat.div_eq_of_lt hlt]), Nat.mod_eq_of_lt hlt]
            rfl
          · rw [if_neg hlt] at hslots ⊢
            have hrest : slots.length = (Nat.toDigits divisor (ud / divisor)).length := by
              simpa using hslots
            have hmore : ud / divisor ≠ 0 := Nat.ne_of_gt (Nat.div_pos (by omega) (by omega))
            have hloop := ih (front ++ [Nat.digitChar (ud % divisor)]) slots (ud / divisor) hrest
              (by simpa using hfuel)
            simp only [List.append_assoc, List.length_append, List.length_singleton,
              List.singleton_append] at hloop
            rw [if_pos hmore, hloop]
            simp only [List.cons_append, List.length_cons, Option.some.injEq, Prod.mk.injEq, true_and]
            omega

/-- The second loop reverses the characters between the two pointers. -/
theorem itoa1ReverseLoop_spec (front s back : List Char) (fuel p2 : Nat)
    (hp2 : p2 + 1 = front.length + s.length) (hfuel : s.length < fuel) :
    itoa1ReverseLoop fuel (front ++ (s ++ back)) front.length p2 =
      some (front ++ (s.reverse ++ back)) := by
  induction s using List.bidirectionalRec generalizing front back fuel p2 with
  | nil =>
      obtain ⟨fuel, rfl⟩ := Nat.exists_eq_succ_of_ne_zero (Nat.ne_of_gt hfuel)
      rw [itoa1ReverseLoop, if_neg (by simp at hp2; omega)]
      rfl
  | singleton x =>
      obtain ⟨fuel, rfl⟩ := Nat.exists_eq_succ_of_ne_zero (Nat.ne_of_gt (Nat.zero_lt_of_lt hfuel))
      rw [itoa1ReverseLoop, if_neg (by simp at hp2; omega)]
      rfl
  | cons_append x mid y ih =>
      obtain ⟨fuel, rfl⟩ := Nat.exists_eq_succ_of_ne_zero (Nat.ne_of_gt (Nat.zero_lt_of_lt hfuel))
      simp only [List.length_cons, List.length_append, List.length_nil] at hp2 hfuel
      have hfirst : front ++ (x :: (mid ++ [y]) ++ back) = front ++ x :: (mid ++ y :: back) := by simp
      have hlast : ∀ c, front ++ c :: (mid ++ y :: back) = (front ++ c :: mid) ++ y :: back := by simp
      have hp2' : ∀ c, p2 = (front ++ c :: mid).length := by simp; omega
      have hother : (front ++ x :: (mid ++ y :: back))[p2]? = some y := by
        rw [hlast, hp2' x, List.getElem?_append_right le_rfl, Nat.sub_self]
        rfl
      have hswap : store (front ++ y :: (mid ++ y :: back)) p2 x =
          some ((front ++ [y]) ++ (mid ++ x :: back)) := by
        rw [hlast, hp2' y, store_append_cons]
        simp
      have hloop := ih (front ++ [y]) (x :: back) fuel (p2 - 1) (by simp; omega) (by omega)
      rw [List.length_append, List.length_singleton] at hloop
      rw [itoa1ReverseLoop, if_pos (by omega), hfirst]
      simp only [List.getElem?_append_right le_rfl, Nat.sub_self, List.getElem?_cons_zero, hother,
        store_append_cons, hswap, hloop, Option.bind_eq_bind, Option.bind_some]
      simp

/-- A buffer cut into parts of given lengths. -/
theorem exists_parts (mem : List Char) (n k : Nat) (h : n + k + 1 ≤ mem.length) :
    ∃ front slots x back, mem = front ++ (slots ++ x :: back) ∧ front.length = n ∧
    slots.length = k := by
  have hlt : n + k < mem.length := by omega
  refine ⟨mem.take n, (mem.drop n).take k, mem[n + k], mem.drop (n + k + 1), ?_, ?_, ?_⟩
  · rw [List.getElem_cons_drop, ← List.drop_drop, List.take_append_drop, List.take_append_drop]
  · rw [List.length_take]
    omega
  · rw [List.length_take, List.length_drop]
    omega

/-- The rest of `itoa1` once the sign is written: the digits, the terminator and the reversal. -/
theorem writeDigits_spec {divisor ud : Nat} (hdivisor : 1 < divisor) (hsmall : divisor ≤ 16)
    (front slots back : List Char) (x : Char)
    (hslots : slots.length = (Nat.toDigits divisor ud).length) :
    (do
      let (mem, p) ← itoa1DivideLoop divisor (front ++ (slots ++ x :: back)).length
        (front ++ (slots ++ x :: back)) front.length ud
      let mem ← store mem p nul
      itoa1ReverseLoop mem.length mem front.length (p - 1)) =
      some (front ++ (Nat.toDigits divisor ud ++ nul :: back)) := by
  have hpos : 0 < (Nat.toDigits divisor ud).length := Nat.length_toDigits_pos
  have hdivide := itoa1DivideLoop_spec hdivisor hsmall front slots (x :: back) ud
    (front ++ (slots ++ x :: back)).length hslots (by simp; omega)
  have hstore : store (front ++ ((Nat.toDigits divisor ud).reverse ++ x :: back))
      (front.length + slots.length) nul =
        some (front ++ ((Nat.toDigits divisor ud).reverse ++ nul :: back)) := by
    have hend : front.length + slots.length = (front ++ (Nat.toDigits divisor ud).reverse).length := by
      rw [List.length_append, List.length_reverse, hslots]
    rw [← List.append_assoc, hend, store_append_cons, List.append_assoc]
  have hreverse := itoa1ReverseLoop_spec front (Nat.toDigits divisor ud).reverse (nul :: back)
    (front ++ ((Nat.toDigits divisor ud).reverse ++ nul :: back)).length
    (front.length + slots.length - 1) (by rw [List.length_reverse]; omega) (by simp; omega)
  rw [List.reverse_reverse] at hreverse
  simp only [hdivide, hstore, hreverse, Option.bind_eq_bind, Option.bind_some]

/-! ### `itoa1` -/

/-- The numeral of `v` that `itoa1` writes for a base. -/
def numeral (base : Char) (v : BitVec 64) : List Char :=
  if base = 'd' ∧ v.toInt < 0 then '-' :: Nat.toDigits 10 v.toInt.natAbs
  else Nat.toDigits (if base = 'x' then 16 else 10) v.toNat

theorem toNat_neg_of_toInt_neg {v : BitVec 64} (h : v.toInt < 0) : (-v).toNat = v.toInt.natAbs := by
  have hlt := v.isLt
  rw [BitVec.toInt_eq_toNat_cond] at h ⊢
  rw [BitVec.toNat_neg]
  split at h <;> omega

theorem toNat_of_toInt_nonneg {v : BitVec 64} (h : 0 ≤ v.toInt) : v.toNat = v.toInt.natAbs := by
  have hlt := v.isLt
  rw [BitVec.toInt_eq_toNat_cond] at h ⊢
  split at h <;> omega

theorem numeral_length_le (base : Char) (v : BitVec 64) : (numeral base v).length ≤ 20 := by
  have hlt := v.isLt
  have hge := BitVec.le_two_mul_toInt (x := v)
  unfold numeral
  split
  case isTrue hneg =>
    rw [List.length_cons]
    have hdigits : (Nat.toDigits 10 v.toInt.natAbs).length ≤ 19 :=
      (Nat.length_toDigits_le_iff (by norm_num) (by norm_num)).mpr (by omega)
    omega
  case isFalse =>
    split
    · exact (Nat.length_toDigits_le_iff (by norm_num) (by norm_num)).mpr (by omega)
    · exact (Nat.length_toDigits_le_iff (by norm_num) (by norm_num)).mpr (by omega)

/-- `itoa1` writes the numeral and a terminator at the start of a buffer that is large enough. -/
theorem itoa1_spec (mem : List Char) (base : Char) (v : BitVec 64) (hmem : 21 ≤ mem.length) :
    ∃ back, itoa1 mem base v = some (numeral base v ++ nul :: back) ∧
      (numeral base v ++ nul :: back).length = mem.length := by
  have hlength := numeral_length_le base v
  unfold itoa1 numeral at *
  by_cases hminus : base = 'd' ∧ v.toInt < 0
  · rw [if_pos hminus, List.length_cons] at hlength
    obtain ⟨front, slots, x, back, rfl, hfront, hslots⟩ :=
      exists_parts mem 1 (Nat.toDigits 10 v.toInt.natAbs).length (by omega)
    obtain ⟨c, rfl⟩ := List.length_eq_one_iff.mp hfront
    refine ⟨back, ?_, ?_⟩
    · have hwrite := writeDigits_spec (by norm_num : 1 < 10) (by norm_num) ['-'] slots back x hslots
      have hsign : store ([c] ++ (slots ++ x :: back)) 0 '-' = some (['-'] ++ (slots ++ x :: back)) :=
        store_append_cons [] (slots ++ x :: back) c '-'
      simp only [hminus, and_self, decide_true, if_true, hsign, Option.map_some, Option.bind_eq_bind,
        Option.bind_some, toNat_neg_of_toInt_neg hminus.2]
      exact hwrite
    · rw [if_pos hminus]
      simp [hslots]
  · rw [if_neg hminus] at hlength
    obtain ⟨front, slots, x, back, rfl, hfront, hslots⟩ := exists_parts mem 0
      (Nat.toDigits (if base = 'x' then 16 else 10) v.toNat).length (by omega)
    obtain rfl := List.length_eq_zero_iff.mp hfront
    refine ⟨back, ?_, ?_⟩
    · have hbase : 1 < (if base = 'x' then 16 else 10) ∧ (if base = 'x' then 16 else 10) ≤ 16 := by
        split <;> norm_num
      have hwrite := writeDigits_spec hbase.1 hbase.2 [] slots back x hslots
      rw [if_neg hminus]
      simp only [hminus, decide_false, Bool.false_eq_true, if_false, Option.bind_eq_bind,
        Option.bind_some]
      exact hwrite
    · rw [if_neg hminus]
      simp [hslots]

/-! ### `itoa` -/

/-- C division by 10 takes the last digit off a number of either sign. -/
theorem sign_mul_tmod_tdiv {sign : Int} (hsign : sign = 1 ∨ sign = -1) (n : Nat) :
    (sign * n).tmod 10 = sign * ((n % 10 : Nat) : Int) ∧
      (sign * n).tdiv 10 = sign * ((n / 10 : Nat) : Int) := by
  have hmod : ((n : Int)).tmod 10 = ((n % 10 : Nat) : Int) := (Int.ofNat_tmod n 10).symm
  have hdiv : ((n : Int)).tdiv 10 = ((n / 10 : Nat) : Int) := (Int.ofNat_tdiv n 10).symm
  rcases hsign with rfl | rfl
  · rw [one_mul, one_mul, one_mul]
    exact ⟨hmod, hdiv⟩
  · rw [neg_one_mul, neg_one_mul, neg_one_mul, Int.neg_tmod, Int.neg_tdiv, hmod, hdiv]
    exact ⟨rfl, rfl⟩

/-- The loops of `itoa` write the digits of `n` up to the pointer, for the number `sign * n` and what
    `digit` makes of its remainders. -/
theorem itoaLoop_spec (digit : Int → Char) (sign : Int) (hsign : sign = 1 ∨ sign = -1)
    (hdigit : ∀ d : Nat, d < 10 → digit (sign * d) = Nat.digitChar d) (front slots back : List Char)
    {n fuel : Nat} (hslots : slots.length = (Nat.toDigits 10 n).length) (hfuel : slots.length ≤ fuel) :
    itoaLoop digit fuel (front ++ (slots ++ back)) (front.length + slots.length) (sign * n) =
      some (front ++ (Nat.toDigits 10 n ++ back), front.length) := by
  induction fuel generalizing slots back n with
  | zero =>
      have hpos : 0 < (Nat.toDigits 10 n).length := Nat.length_toDigits_pos
      omega
  | succ fuel ih =>
      obtain ⟨hmod, hdiv⟩ := sign_mul_tmod_tdiv hsign n
      have hzero : sign * ((n / 10 : Nat) : Int) ≠ 0 ↔ ¬ n < 10 := by
        rcases hsign with rfl | rfl <;> omega
      rw [Nat.toDigits_eq_if (by norm_num)] at hslots ⊢
      -- the last digit goes into the last slot
      obtain ⟨slots, x, rfl⟩ : ∃ slots' x, slots = slots' ++ [x] := by
        refine (List.eq_nil_or_concat' slots).resolve_left fun hnil => ?_
        rw [hnil] at hslots
        split at hslots <;> simp at hslots
      have hstore : storeBefore (front ++ (slots ++ [x] ++ back)) (front.length + (slots ++ [x]).length)
          (digit ((sign * n).tmod 10)) =
            some (front ++ (slots ++ Nat.digitChar (n % 10) :: back), front.length + slots.length) := by
        have hparts : front ++ (slots ++ [x] ++ back) = (front ++ slots) ++ x :: back := by simp
        have hend : front.length + (slots ++ [x]).length = (front ++ slots).length + 1 := by simp; omega
        rw [hmod, hdigit _ (Nat.mod_lt _ (by norm_num)), hparts, hend, storeBefore_append_cons]
        simp
      simp only [itoaLoop, hstore, hdiv, hzero, Option.bind_eq_bind, Option.bind_some]
      by_cases hlt : n < 10
      · rw [if_pos hlt] at hslots ⊢
        obtain rfl : slots = [] := by simpa using hslots
        rw [if_neg (not_not_intro hlt), Nat.mod_eq_of_lt hlt]
        rfl
      · rw [if_neg hlt] at hslots ⊢
        have hrest : slots.length = (Nat.toDigits 10 (n / 10)).length := by simpa using hslots
        rw [if_pos hlt, ih slots (Nat.digitChar (n % 10) :: back) hrest (by simpa using hfuel)]
        simp

/-- The static buffer with a string before its last character. -/
def StaticBuffer.ofString (s : List Char) (h : s.length = intDigits + 1) : StaticBuffer :=
  ⟨⟨s ++ [nul], by rw [List.length_append, h]; rfl⟩, by
    rw [List.getElem?_append_right h.le, h, Nat.sub_self]
    rfl⟩

/-- The static buffer cut before the last `k` of the characters that `itoa` writes. -/
theorem StaticBuffer.exists_parts (static : StaticBuffer) {k : Nat} (h : k ≤ intDigits + 1) :
    ∃ front slots, static.val.val = front ++ (slots ++ [nul]) ∧ front.length + k = intDigits + 1 ∧
      slots.length = k := by
  obtain ⟨⟨mem, hlength⟩, hlast⟩ := static
  obtain ⟨front, slots, x, back, rfl, hfront, hslots⟩ :=
    Stdlib.exists_parts mem (intDigits + 1 - k) k (by omega)
  obtain rfl : back = [] := by
    rw [← List.length_eq_zero_iff]
    simp at hlength
    omega
  have hend : intDigits + 1 = (front ++ slots).length := by
    rw [List.length_append]
    omega
  simp only [← List.append_assoc, hend, List.getElem?_append_right le_rfl, Nat.sub_self,
    List.getElem?_cons_zero, Option.some.injEq] at hlast
  exact ⟨front, slots, congrArg (fun c => front ++ (slots ++ [c])) hlast, by omega, hslots⟩

/-- `itoa` returns a pointer to the signed numeral inside its static buffer. -/
theorem itoa_spec (static : StaticBuffer) (base : Int) (v : BitVec 64) :
    ∃ (after : StaticBuffer) (p : Nat), itoa static.val.val base v.toInt = some (after.val.val, p) ∧
      stringAt after.val.val p = some (numeral 'd' v) := by
  have hlt := v.isLt
  have hge := BitVec.le_two_mul_toInt (x := v)
  have hle := BitVec.two_mul_toInt_lt (x := v)
  have hdigits : (Nat.toDigits 10 v.toInt.natAbs).length ≤ intDigits :=
    (Nat.length_toDigits_le_iff (by norm_num) (by decide)).mpr (by norm_num [intDigits]; omega)
  obtain ⟨front, slots, hmem, hfront, hslots⟩ :=
    static.exists_parts (k := (Nat.toDigits 10 v.toInt.natAbs).length) (by omega)
  have hnul : nul ∉ Nat.toDigits 10 v.toInt.natAbs := nul_not_mem_toDigits (by norm_num)
  have hfuel : slots.length ≤ (front ++ (slots ++ [nul])).length := by simp; omega
  have hp : intDigits + 1 = front.length + slots.length := by omega
  rw [itoa, hmem]
  by_cases hpos : 0 ≤ v.toInt
  · have hnat := toNat_of_toInt_nonneg hpos
    have hloop := itoaLoop_spec (fun remainder => Char.ofNat ('0'.toNat + remainder).toNat) 1
      (Or.inl rfl) (by decide) front slots [nul] hslots hfuel
    rw [one_mul, Int.natAbs_of_nonneg hpos, ← hp] at hloop
    refine ⟨.ofString (front ++ Nat.toDigits 10 v.toInt.natAbs) (by rw [List.length_append, hfront]),
      front.length, ?_, ?_⟩
    · rw [if_pos hpos, hloop]
      simp [StaticBuffer.ofString]
    · rw [numeral, if_neg (fun h => absurd h.2 (not_lt.mpr hpos)), if_neg (by decide), hnat]
      simp only [StaticBuffer.ofString, List.append_assoc]
      exact stringAt_append _ hnul
  · have hloop := itoaLoop_spec (fun remainder => Char.ofNat ('0'.toNat - remainder).toNat) (-1)
      (Or.inr rfl) (by decide) front slots [nul] hslots hfuel
    rw [neg_one_mul, Int.ofNat_natAbs_of_nonpos (by omega), neg_neg, ← hp] at hloop
    -- the sign goes into the last slot left
    obtain rfl | ⟨front, x, rfl⟩ := List.eq_nil_or_concat' front
    · simp at hfront
      omega
    · refine ⟨.ofString (front ++ '-' :: Nat.toDigits 10 v.toInt.natAbs) (by simp at hfront ⊢; omega),
        front.length, ?_, ?_⟩
      · have hsign : storeBefore (front ++ [x] ++ (Nat.toDigits 10 v.toInt.natAbs ++ [nul]))
            (front ++ [x]).length '-' =
              some (front ++ '-' :: (Nat.toDigits 10 v.toInt.natAbs ++ [nul]), front.length) := by
          rw [List.length_append, List.length_singleton, List.append_assoc]
          exact storeBefore_append_cons front _ x '-'
        simp only [if_neg hpos, hloop, Option.bind_eq_bind, Option.bind_some, hsign]
        simp [StaticBuffer.ofString]
      · rw [numeral, if_pos ⟨rfl, not_le.mp hpos⟩]
        simp only [StaticBuffer.ofString, List.append_assoc]
        exact stringAt_append _ (by simpa [nul] using hnul)

/-! ### Canonical numerals -/

theorem nul_not_mem_numeral (base : Char) (v : BitVec 64) : nul ∉ numeral base v := by
  unfold numeral
  split
  case isTrue => simpa [nul] using nul_not_mem_toDigits (b := 10) (n := v.toInt.natAbs) (by norm_num)
  case isFalse => exact nul_not_mem_toDigits (by split <;> norm_num)

/-- A buffer of 40 characters, as the callers of `itoa1` have it, receives the numeral. -/
theorem itoa1_buffer (buf : Buffer 40) (base : Char) (v : BitVec 64) : ∃ after : Buffer 40,
    itoa1 buf.val base v = some after.val ∧ stringAt after.val 0 = some (numeral base v) := by
  obtain ⟨mem, hmem⟩ := buf
  obtain ⟨back, hcall, hlength⟩ := itoa1_spec mem base v (by omega)
  exact ⟨⟨_, hlength.trans hmem⟩, hcall, stringAt_append [] (nul_not_mem_numeral base v)⟩

theorem isSignedNumeral_numeral (v : BitVec 64) : IsSignedNumeral v.toInt (numeral 'd' v) := by
  rw [IsSignedNumeral, numeral]
  split
  case isTrue hneg =>
    rw [if_pos ⟨rfl, hneg⟩]
    exact ⟨_, rfl, isNumeral_toDigits (by norm_num) (by norm_num)⟩
  case isFalse hpos =>
    rw [if_neg fun h => hpos h.2, if_neg (by decide), toNat_of_toInt_nonneg (not_lt.mp hpos)]
    exact isNumeral_toDigits (by norm_num) (by norm_num)

/-- For every 64-bit value, `itoa1` leaves the signed decimal, the decimal or the hexadecimal numeral
    in the buffer of its caller, and `itoa` returns the same string as `itoa1` with base `d`. -/
theorem itoa_canonical (v : BitVec 64) (buf : Buffer 40) :
    (∃ (after : Buffer 40) (s : List Char), itoa1 buf.val 'd' v = some after.val ∧
      stringAt after.val 0 = some s ∧ IsSignedNumeral v.toInt s ∧
      ∀ (static : StaticBuffer) (base : Int), ∃ (after : StaticBuffer) (p : Nat),
        itoa static.val.val base v.toInt = some (after.val.val, p) ∧
          stringAt after.val.val p = some s) ∧
    (∃ (after : Buffer 40) (s : List Char), itoa1 buf.val 'u' v = some after.val ∧
      stringAt after.val 0 = some s ∧ IsNumeral 10 v.toNat s) ∧
    (∃ (after : Buffer 40) (s : List Char), itoa1 buf.val 'x' v = some after.val ∧
      stringAt after.val 0 = some s ∧ IsNumeral 16 v.toNat s) := by
  obtain ⟨afterD, hcallD, hstringD⟩ := itoa1_buffer buf 'd' v
  obtain ⟨afterU, hcallU, hstringU⟩ := itoa1_buffer buf 'u' v
  obtain ⟨afterX, hcallX, hstringX⟩ := itoa1_buffer buf 'x' v
  refine ⟨⟨afterD, _, hcallD, hstringD, isSignedNumeral_numeral v,
    fun static base => itoa_spec static base v⟩,
    ⟨afterU, _, hcallU, hstringU, ?_⟩, ⟨afterX, _, hcallX, hstringX, ?_⟩⟩
  · rw [numeral, if_neg fun h => absurd h.1 (by decide), if_neg (by decide)]
    exact isNumeral_toDigits (by norm_num) (by norm_num)
  · rw [numeral, if_neg fun h => absurd h.1 (by decide), if_pos rfl]
    exact isNumeral_toDigits (by norm_num) (by norm_num)

end Rpi4Kernel.Stdlib
