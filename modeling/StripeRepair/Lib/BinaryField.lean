import Mathlib.Algebra.CharP.Two
import Mathlib.Algebra.Field.Basic
import Mathlib.Data.BitVec
import Mathlib.Tactic.Abel

/-!
# Binary polynomials modulo a polynomial of degree `w`

`Gf w red` is the ring of binary polynomials modulo `x^w + red`, an element being
the word of its coefficients.  Addition is xor; multiplication adds up the
shifted copies `x^i * a` for the bits `i` of the other factor, where one shift
(`xtime`) reduces by `red` as soon as the leading bit falls out.

* `Gf.commRing`: the ring laws, for every `w` and every `red`.

The laws rest on one fact: multiplying by `b` commutes with `xtime`, so it
commutes with multiplying by `c` (`mul_right_comm'`), and `1 * b = b`.
-/

/-- Binary polynomials modulo `x^w + red`, as words of `w` coefficients. -/
structure Gf (w : Nat) (red : BitVec w) where
  bits : BitVec w
  deriving DecidableEq, Repr

namespace Gf

variable {w : Nat} {red : BitVec w}

@[ext] theorem ext' {a b : Gf w red} (h : a.bits = b.bits) : a = b := by
  cases a; cases b; exact congrArg Gf.mk h

/-- The element whose coefficients are the low `w` bits of `n`. -/
def ofNat (w : Nat) (red : BitVec w) (n : Nat) : Gf w red := ⟨BitVec.ofNat w n⟩

def toNat (a : Gf w red) : Nat := a.bits.toNat

instance : Zero (Gf w red) := ⟨⟨0#w⟩⟩
instance : One (Gf w red) := ⟨⟨BitVec.twoPow w 0⟩⟩
instance : Add (Gf w red) := ⟨fun a b => ⟨a.bits ^^^ b.bits⟩⟩
instance : Neg (Gf w red) := ⟨fun a => a⟩
instance : Inhabited (Gf w red) := ⟨0⟩

/-- Multiplication by `x`. -/
def xtime (a : Gf w red) : Gf w red :=
  ⟨if a.bits.msb then (a.bits <<< 1) ^^^ red else a.bits <<< 1⟩

/-- The sum of the `x^j * a` for the set bits `j < i` of `b`. -/
def mulAux : Nat → Gf w red → BitVec w → Gf w red
  | 0, _, _ => 0
  | i + 1, a, b =>
    if b.getLsbD 0 then a + mulAux i (xtime a) (b >>> 1) else mulAux i (xtime a) (b >>> 1)

instance : Mul (Gf w red) := ⟨fun a b => mulAux w a b.bits⟩

theorem mul_def (a b : Gf w red) : a * b = mulAux w a b.bits := rfl

@[simp] theorem bits_zero : (0 : Gf w red).bits = 0#w := rfl
@[simp] theorem bits_one : (1 : Gf w red).bits = BitVec.twoPow w 0 := rfl
@[simp] theorem bits_add (a b : Gf w red) : (a + b).bits = a.bits ^^^ b.bits := rfl
@[simp] theorem neg_eq (a : Gf w red) : -a = a := rfl

/-! ## Addition -/

instance : AddCommGroup (Gf w red) where
  add_assoc a b c := by ext1; simp [BitVec.xor_assoc]
  zero_add a := by ext1; simp
  add_zero a := by ext1; simp
  add_comm a b := by ext1; simp [BitVec.xor_comm]
  neg_add_cancel a := by ext1; simp
  nsmul := nsmulRec
  zsmul := zsmulRec

theorem add_self (a : Gf w red) : a + a = 0 := neg_add_cancel a

theorem xtime_add (a b : Gf w red) : xtime (a + b) = xtime a + xtime b := by
  ext1
  simp only [xtime, bits_add, BitVec.msb_xor, BitVec.shiftLeft_xor_distrib]
  cases a.bits.msb <;> cases b.bits.msb <;>
    simp only [Bool.bne_true, Bool.bne_false, Bool.not_true, Bool.not_false, if_true,
      Bool.false_eq_true, if_false]
  · ac_rfl
  · ac_rfl
  · rw [show ∀ p q r : BitVec w, p ^^^ r ^^^ (q ^^^ r) = p ^^^ q ^^^ (r ^^^ r) by
      intro p q r; ac_rfl]
    simp

@[simp] theorem xtime_zero : xtime (0 : Gf w red) = 0 := by
  ext1; simp [xtime]

/-! ## Multiplication -/

theorem mulAux_add (i : Nat) (a a' : Gf w red) (b : BitVec w) :
    mulAux i (a + a') b = mulAux i a b + mulAux i a' b := by
  induction i generalizing a a' b with
  | zero => simp [mulAux]
  | succ i ih =>
    simp only [mulAux, xtime_add, ih]
    split
    · abel
    · rfl

theorem mulAux_xor (i : Nat) (a : Gf w red) (b b' : BitVec w) :
    mulAux i a (b ^^^ b') = mulAux i a b + mulAux i a b' := by
  induction i generalizing a b b' with
  | zero => simp [mulAux]
  | succ i ih =>
    simp only [mulAux, BitVec.getLsbD_xor, BitVec.ushiftRight_xor_distrib, ih]
    have := add_self a
    cases b.getLsbD 0 <;> cases b'.getLsbD 0 <;> simp
    · abel
    · abel
    · rw [show ∀ p q : Gf w red, a + p + (a + q) = (a + a) + (p + q) by intro p q; abel, this,
        zero_add]

theorem mulAux_xtime (i : Nat) (a : Gf w red) (b : BitVec w) :
    mulAux i (xtime a) b = xtime (mulAux i a b) := by
  induction i generalizing a b with
  | zero => simp [mulAux]
  | succ i ih =>
    simp only [mulAux, ih]
    split
    · rw [xtime_add]
    · rfl

theorem mulAux_zero_left (i : Nat) (b : BitVec w) : mulAux i (0 : Gf w red) b = 0 := by
  induction i generalizing b with
  | zero => rfl
  | succ i ih => simp [mulAux, ih]

theorem mulAux_zero_right (i : Nat) (a : Gf w red) : mulAux i a 0#w = 0 := by
  induction i generalizing a with
  | zero => rfl
  | succ i ih => simp [mulAux, ih]

theorem mulAux_mulAux (i j : Nat) (a : Gf w red) (b c : BitVec w) :
    mulAux i (mulAux j a b) c = mulAux j (mulAux i a c) b := by
  induction i generalizing a c with
  | zero => simp only [mulAux, mulAux_zero_left]
  | succ i ih =>
    simp only [mulAux]
    rw [← mulAux_xtime, ih]
    split
    · rw [mulAux_add]
    · rfl

theorem mul_right_comm' (a b c : Gf w red) : a * b * c = a * c * b :=
  mulAux_mulAux w w a b.bits c.bits

/-- `c` at position `j` is its lowest bit there, and the other bits one further. -/
theorem shiftLeft_split (c : BitVec w) (j : Nat) :
    c <<< j = (if c.getLsbD 0 then BitVec.twoPow w j else 0#w) ^^^ ((c >>> 1) <<< (j + 1)) := by
  apply BitVec.eq_of_getLsbD_eq
  intro k hk
  rw [BitVec.getLsbD_xor, BitVec.getLsbD_shiftLeft, BitVec.getLsbD_shiftLeft,
    BitVec.getLsbD_ushiftRight]
  rcases Nat.lt_trichotomy k j with h | rfl | h
  · have hne : ¬ j = k := by omega
    cases c.getLsbD 0 <;> simp [h, show k < j + 1 by omega, hne]
  · cases h0 : c.getLsbD 0 <;> simp [hk, h0]
  · have hk1 : 1 + (k - (j + 1)) = k - j := by omega
    cases c.getLsbD 0 <;>
      simp [hk, show ¬ k < j by omega, show ¬ k < j + 1 by omega, show ¬ k = j by omega, hk1]

theorem xtime_twoPow {j : Nat} (hj : j + 1 < w) :
    xtime (⟨BitVec.twoPow w j⟩ : Gf w red) = ⟨BitVec.twoPow w (j + 1)⟩ := by
  have hmsb : (BitVec.twoPow w j).msb = false := by
    rw [BitVec.msb_twoPow]
    simp only [decide_eq_false_iff_not, Bool.and_eq_false_imp, decide_eq_true_eq]
    omega
  ext1
  simp only [xtime, hmsb, Bool.false_eq_true, if_false]
  apply BitVec.eq_of_getLsbD_eq
  intro k hk
  simp only [BitVec.getLsbD_shiftLeft, BitVec.getLsbD_twoPow]
  by_cases h0 : k < 1
  · simp [h0, show ¬ j + 1 = k by omega]
  · simp only [hk, h0, show (j = k - 1) ↔ (j + 1 = k) by omega]
    simp [hj, show j < w by omega]

/-- Multiplying `x^j` by the `i` bits of `c` puts `c` at position `j`. -/
theorem mulAux_twoPow (i j : Nat) (c : BitVec w) (hj : i + j ≤ w) (hc : c.toNat < 2 ^ i) :
    mulAux i (⟨BitVec.twoPow w j⟩ : Gf w red) c = ⟨c <<< j⟩ := by
  induction i generalizing j c with
  | zero =>
    have : c = 0#w := by
      apply BitVec.eq_of_toNat_eq
      simpa using hc
    subst this
    ext1; simp [mulAux]
  | succ i ih =>
    have hc' : (c >>> 1).toNat < 2 ^ i := by
      rw [BitVec.toNat_ushiftRight, Nat.shiftRight_eq_div_pow]
      omega
    -- the bits above the lowest one, one position further
    have hrest : mulAux i (xtime (⟨BitVec.twoPow w j⟩ : Gf w red)) (c >>> 1)
        = ⟨(c >>> 1) <<< (j + 1)⟩ := by
      rcases Nat.eq_zero_or_pos i with rfl | hi
      · have h0 : c >>> 1 = 0#w := by
          apply BitVec.eq_of_toNat_eq
          simpa using hc'
        rw [h0]; ext1; simp [mulAux]
      · rw [xtime_twoPow (by omega), ih (j + 1) (c >>> 1) (by omega) hc']
    simp only [mulAux, hrest]
    ext1
    rw [shiftLeft_split c j]
    cases c.getLsbD 0 <;> simp

theorem one_mul' (b : Gf w red) : 1 * b = b := by
  have h1 : mulAux w (1 : Gf w red) b.bits = ⟨b.bits <<< 0⟩ :=
    mulAux_twoPow w 0 b.bits (by omega) b.bits.isLt
  rw [mul_def, h1]
  ext1; simp

theorem mul_comm' (a b : Gf w red) : a * b = b * a := by
  calc a * b = 1 * a * b := by rw [one_mul']
    _ = 1 * b * a := mul_right_comm' 1 a b
    _ = b * a := by rw [one_mul']

instance commRing : CommRing (Gf w red) where
  left_distrib a b c := mulAux_xor w a b.bits c.bits
  right_distrib a b c := mulAux_add w a b c.bits
  zero_mul a := mulAux_zero_left w a.bits
  mul_zero a := mulAux_zero_right w a
  mul_assoc a b c := by
    rw [mul_comm' a b, mul_right_comm', mul_comm']
  one_mul := one_mul'
  mul_one a := (mul_comm' a 1).trans (one_mul' a)
  mul_comm := mul_comm'
  zsmul := zsmulRec
  neg_add_cancel := add_self

@[simp] theorem ofNat_zero : ofNat w red 0 = 0 := rfl

@[simp] theorem ofNat_one : ofNat w red 1 = 1 := by
  apply ext'
  apply BitVec.eq_of_toNat_eq
  simp [ofNat, BitVec.toNat_twoPow]

theorem ofNat_toNat (a : Gf w red) : ofNat w red a.toNat = a := by
  apply ext'
  simp [ofNat, toNat]

theorem toNat_lt (a : Gf w red) : a.toNat < 2 ^ w := a.bits.isLt

theorem ofNat_injOn {m n : Nat} (hm : m < 2 ^ w) (hn : n < 2 ^ w)
    (h : ofNat w red m = ofNat w red n) : m = n := by
  have := congrArg (fun a : Gf w red => a.bits.toNat) h
  simpa [ofNat, Nat.mod_eq_of_lt hm, Nat.mod_eq_of_lt hn] using this

end Gf
