import Mathlib.Algebra.Group.Nat.Defs
import Mathlib.Data.Nat.Basic

/-! Unsigned machine integers. A computation with them may panic; it yields a number if it does not and the number is
what the same computation with natural numbers gives. -/

namespace MachineWords

/-- Why arithmetic panics. -/
inductive Panic where
  | overflow
  | divisionByZero
  deriving DecidableEq

variable {w v : Nat}

/-! ### Operations -/

/-- The operators of the primitive types, which wrap around in a build without overflow checks. -/
def sub (overflowChecks : Bool) (a b : BitVec w) : Except Panic (BitVec w) :=
  if overflowChecks && a.usubOverflow b then .error .overflow else .ok (a - b)

def mul (overflowChecks : Bool) (a b : BitVec w) : Except Panic (BitVec w) :=
  if overflowChecks && a.umulOverflow b then .error .overflow else .ok (a * b)

def div (a b : BitVec w) : Except Panic (BitVec w) :=
  if b = 0 then .error .divisionByZero else .ok (a / b)

def saturatingAdd (a b : BitVec w) : BitVec w := if a.uaddOverflow b then BitVec.allOnes w else a + b

def saturatingSub (a b : BitVec w) : BitVec w := if a.usubOverflow b then 0 else a - b

/-- The second one if they are equal. -/
def maxWord (a b : BitVec w) : BitVec w := if a ≤ b then b else a

/-- A conversion that panics if the number does not fit. -/
def narrow (v : Nat) (a : BitVec w) : Except Panic (BitVec v) :=
  if a.toNat < 2 ^ v then .ok (a.setWidth v) else .error .overflow

@[simp] theorem toNat_saturatingAdd (a b : BitVec w) :
    (saturatingAdd a b).toNat = min (a.toNat + b.toNat) (2 ^ w - 1) := by
  have hpos := Nat.two_pow_pos w
  unfold saturatingAdd
  split
  · rename_i hover
    have hge : 2 ^ w ≤ a.toNat + b.toNat := by simpa [BitVec.uaddOverflow] using hover
    rw [BitVec.toNat_allOnes]
    omega
  · rename_i hfits
    have hlt : a.toNat + b.toNat < 2 ^ w := by simpa [BitVec.uaddOverflow] using hfits
    rw [BitVec.toNat_add_of_lt hlt]
    omega

@[simp] theorem toNat_saturatingSub (a b : BitVec w) : (saturatingSub a b).toNat = a.toNat - b.toNat := by
  unfold saturatingSub
  split
  · rename_i hover
    have hlt : a.toNat < b.toNat := by simpa [BitVec.usubOverflow] using hover
    rw [BitVec.ofNat_eq_ofNat, BitVec.toNat_ofNat, Nat.zero_mod]
    omega
  · rename_i hfits
    have hle : b.toNat ≤ a.toNat := by simpa [BitVec.usubOverflow] using hfits
    exact BitVec.toNat_sub_of_le hle

@[simp] theorem toNat_maxWord (a b : BitVec w) : (maxWord a b).toNat = max a.toNat b.toNat := by
  unfold maxWord
  split
  · rename_i hle
    exact (Nat.max_eq_right hle).symm
  · rename_i hnot
    exact (Nat.max_eq_left (Nat.le_of_not_le hnot)).symm

/-! ### What a computation yields -/

/-- The computation does not panic, and this is its result. -/
def Yields (x : Except Panic (BitVec w)) (n : Nat) : Prop := ∃ a, x = .ok a ∧ a.toNat = n

namespace Yields

variable {x : Except Panic (BitVec w)} {f : BitVec w → Except Panic (BitVec v)} {a b : BitVec w} {m n : Nat}

theorem ok (a : BitVec w) : Yields (.ok a) a.toNat := ⟨a, rfl, rfl⟩

theorem of_eq (h : Yields x m) (heq : m = n) : Yields x n := heq ▸ h

theorem bind (h : Yields x m) (hf : ∀ a : BitVec w, a.toNat = m → Yields (f a) n) : Yields (x >>= f) n := by
  obtain ⟨a, rfl, ha⟩ := h
  exact hf a ha

theorem unique (h : Yields x m) (h' : Yields x n) : m = n := by
  obtain ⟨a, rfl, rfl⟩ := h
  obtain ⟨b, hb, rfl⟩ := h'
  cases hb
  rfl

theorem sub (overflowChecks : Bool) (h : b.toNat ≤ a.toNat) :
    Yields (sub overflowChecks a b) (a.toNat - b.toNat) := by
  have hfits : a.usubOverflow b = false := by simpa [BitVec.usubOverflow] using h
  refine ⟨a - b, ?_, BitVec.toNat_sub_of_le h⟩
  rw [MachineWords.sub, hfits, Bool.and_false, if_neg Bool.false_ne_true]

theorem mul (overflowChecks : Bool) (h : a.toNat * b.toNat < 2 ^ w) :
    Yields (mul overflowChecks a b) (a.toNat * b.toNat) := by
  have hfits : a.umulOverflow b = false := by simpa [BitVec.umulOverflow] using h
  refine ⟨a * b, ?_, BitVec.toNat_mul_of_lt h⟩
  rw [MachineWords.mul, hfits, Bool.and_false, if_neg Bool.false_ne_true]

theorem div (h : 0 < b.toNat) : Yields (div a b) (a.toNat / b.toNat) := by
  refine ⟨a / b, if_neg fun hzero => ?_, BitVec.toNat_udiv⟩
  rw [hzero, BitVec.ofNat_eq_ofNat, BitVec.toNat_ofNat, Nat.zero_mod] at h
  exact Nat.lt_irrefl 0 h

theorem narrow (h : a.toNat < 2 ^ v) : Yields (narrow v a) a.toNat := by
  refine ⟨a.setWidth v, if_pos h, ?_⟩
  rw [BitVec.toNat_setWidth, Nat.mod_eq_of_lt h]

end Yields

/-! ### Sums that wrap around -/

/-- The sum of words as it is computed without overflow checks. -/
def wrappingSum (words : List (BitVec w)) : BitVec w := words.foldl (· + ·) 0

def exactSum : List (BitVec w) → Nat
  | [] => 0
  | word :: words => word.toNat + exactSum words

theorem toNat_foldl_add (words : List (BitVec w)) (start : BitVec w) :
    (words.foldl (· + ·) start).toNat = (start.toNat + exactSum words) % 2 ^ w := by
  induction words generalizing start with
  | nil => exact (Nat.mod_eq_of_lt start.isLt).symm
  | cons word words ih =>
      rw [List.foldl_cons, ih, BitVec.toNat_add, exactSum, Nat.mod_add_mod, Nat.add_assoc]

theorem toNat_wrappingSum (words : List (BitVec w)) : (wrappingSum words).toNat = exactSum words % 2 ^ w := by
  rw [wrappingSum, toNat_foldl_add, BitVec.ofNat_eq_ofNat, BitVec.toNat_ofNat, Nat.zero_mod, Nat.zero_add]

/-- Taking two sums from a word gives back the word exactly if the sums fit into it. -/
theorem sub_sub_exact_iff (total : BitVec w) (first second : List (BitVec w)) :
    ((total - wrappingSum first - wrappingSum second).toNat + exactSum first + exactSum second = total.toNat ∧
      (wrappingSum first).toNat = exactSum first ∧ (wrappingSum second).toNat = exactSum second) ↔
    exactSum first + exactSum second ≤ total.toNat := by
  constructor
  · rintro ⟨hsum, _⟩
    omega
  · intro hle
    have hlt := total.isLt
    have hfirst : (wrappingSum first).toNat = exactSum first := by
      rw [toNat_wrappingSum]
      exact Nat.mod_eq_of_lt (by omega)
    have hsecond : (wrappingSum second).toNat = exactSum second := by
      rw [toNat_wrappingSum]
      exact Nat.mod_eq_of_lt (by omega)
    have hrest : (total - wrappingSum first).toNat = total.toNat - exactSum first := by
      rw [BitVec.toNat_sub_of_le (by rw [BitVec.le_def]; omega), hfirst]
    refine ⟨?_, hfirst, hsecond⟩
    rw [BitVec.toNat_sub_of_le (by rw [BitVec.le_def]; omega), hrest, hsecond]
    omega

end MachineWords
