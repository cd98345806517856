import Mathlib

/-! # The C++ `double`

A `double` is an IEEE 754 binary64 value, kept as its 64 bits. A finite value is its significand
times a power of two; in units of `2^-1074`, the least subnormal, its magnitude is the natural
number `scaled`. A product, a quotient, a difference or a conversion rounds the exact result to
the nearest double, ties to even, and overflows to an infinity from `2^1024 - 2^970` up.
Converting a NaN, an infinity or a value whose truncation lies outside `[0, 2^64)` to `uint64_t`
is undefined, and fails here.
-/

namespace WaykiChain

structure Double where
  bits : UInt64
deriving DecidableEq

namespace Double

def signBit (x : Double) : Bool := decide (2 ^ 63 ≤ x.bits.toNat)

def biasedExp (x : Double) : Nat := x.bits.toNat / 2 ^ 52 % 2 ^ 11

def fraction (x : Double) : Nat := x.bits.toNat % 2 ^ 52

def isNaN (x : Double) : Bool := x.biasedExp == 2047 && x.fraction != 0

def isInf (x : Double) : Bool := x.biasedExp == 2047 && x.fraction == 0

/-- The significand, with the hidden bit of a normal value. -/
def significand (x : Double) : Nat := if x.biasedExp = 0 then x.fraction else 2 ^ 52 + x.fraction

/-- The exponent of the significand's last bit, counted from `2^-1074`. -/
def unitExp (x : Double) : Nat := x.biasedExp - 1

/-- The magnitude of a finite value in units of `2^-1074`. -/
def scaled (x : Double) : Nat := x.significand * 2 ^ x.unitExp

/-- The finite double of sign `s`, significand `m < 2^53` and unit exponent `p ≤ 2045`, the
significand normalised unless `p = 0`. -/
def make (s : Bool) (m p : Nat) : Double :=
  ⟨UInt64.ofNat ((if s then 2 ^ 63 else 0) +
    if m < 2 ^ 52 then m else (p + 1) * 2 ^ 52 + (m - 2 ^ 52))⟩

def inf (s : Bool) : Double := ⟨if s then 0xFFF0000000000000 else 0x7FF0000000000000⟩

/-- The quiet NaN an invalid operation returns. -/
def nan : Double := ⟨0x7FF8000000000000⟩

/-- `⌊log₂ q⌋` by a search over `k` bits above `L`, for `2^L ≤ q < 2^(L + 2^k)`. -/
def log2Search : Nat → Nat → Nat → Nat
  | 0, _, L => L
  | k + 1, q, L => log2Search k q (if 2 ^ (L + 2 ^ k) ≤ q then L + 2 ^ k else L)

/-- The exact value `a / d ≥ 0`, in units of `2^-1074`, rounded to the nearest double of sign `s`,
ties to even. The unit exponent `p` leaves `53` significant bits, fewer for a subnormal; a
significand rounded up to `2^53` carries into the exponent. -/
def round (s : Bool) (a d : Nat) : Double :=
  let p := log2Search 12 (a / d) 0 - 52
  let D := d * 2 ^ p
  let m := a / D + if D < 2 * (a % D) ∨ (2 * (a % D) = D ∧ a / D % 2 = 1) then 1 else 0
  if m = 2 ^ 53 then (if 2045 ≤ p then inf s else make s (2 ^ 52) (p + 1))
  else if 2045 < p then inf s else make s m p

def mul (x y : Double) : Double :=
  if x.isNaN || y.isNaN then nan
  else if x.isInf || y.isInf then
    (if x.scaled == 0 && !x.isInf || y.scaled == 0 && !y.isInf then nan
    else inf (x.signBit != y.signBit))
  else round (x.signBit != y.signBit) (x.scaled * y.scaled) (2 ^ 1074)

def div (x y : Double) : Double :=
  if x.isNaN || y.isNaN || x.isInf && y.isInf || x.scaled == 0 && y.scaled == 0 then nan
  else if x.isInf || y.scaled == 0 then inf (x.signBit != y.signBit)
  else if y.isInf then make (x.signBit != y.signBit) 0 0
  else round (x.signBit != y.signBit) (x.scaled * 2 ^ 1074) y.scaled

def ofUInt64 (n : UInt64) : Double := round false (n.toNat * 2 ^ 1074) 1

/-- A double's place on the line, NaN apart: the signed magnitude, the infinities beyond every
finite value. -/
def ord (x : Double) : Int :=
  let m : Int := if x.isInf then 2 ^ 2100 else x.scaled
  if x.signBit then -m else m

/-- `x < y`, false when either is a NaN; the two zeros are equal. -/
def lt (x y : Double) : Bool := !x.isNaN && !y.isNaN && decide (x.ord < y.ord)

def le (x y : Double) : Bool := !x.isNaN && !y.isNaN && decide (x.ord ≤ y.ord)

def isFinite (x : Double) : Bool := !x.isNaN && !x.isInf

/-- `x - y`: the exact difference of finite values, rounded; a zero difference is `+0` but for
`-0 - +0`. -/
def sub (x y : Double) : Double :=
  if x.isNaN || y.isNaN || x.isInf && y.isInf && x.signBit == y.signBit then nan
  else if x.isInf then x
  else if y.isInf then inf (!y.signBit)
  else
    let d := x.ord - y.ord
    round (decide (d < 0) || d == 0 && x.signBit && !y.signBit) d.natAbs 1

/-- `fabs(x)`: the sign bit cleared. -/
def abs (x : Double) : Double := ⟨x.bits % 0x8000000000000000⟩

/-- A `bool` converted to `double`. -/
def ofBool (b : Bool) : Double := ofUInt64 (if b then 1 else 0)

/-- `(uint64_t)x`: the value truncated toward zero. -/
def toUInt64? (x : Double) : Option UInt64 :=
  if x.isNaN || x.isInf then none
  else if x.scaled / 2 ^ 1074 = 0 then some 0
  else if x.signBit || 2 ^ 64 ≤ x.scaled / 2 ^ 1074 then none
  else some (UInt64.ofNat (x.scaled / 2 ^ 1074))

/-! ### Subtraction and `fabs`

The sign of a rounded value is one bit outside its magnitude, so `fabs` forgets the order of a
subtraction's operands, and a zero difference of finite values is a zero. -/

theorem abs_make (s s' : Bool) (m p : Nat) : (make s m p).abs = (make s' m p).abs := by
  simp only [abs, make, mk.injEq, UInt64.ext_iff]
  show _ % 2 ^ 64 % _ = _ % 2 ^ 64 % _
  cases s <;> cases s' <;> simp <;> omega

theorem abs_inf (s s' : Bool) : (inf s).abs = (inf s').abs := by
  cases s <;> cases s' <;> rfl

theorem abs_round (s s' : Bool) (a d : Nat) : (round s a d).abs = (round s' a d).abs := by
  unfold round
  dsimp only
  split_ifs <;> simp only [abs_make s s', abs_inf s s']

theorem abs_of_isInf {x : Double} (h : x.isInf = true) : x.abs = (inf false).abs := by
  simp only [isInf, biasedExp, fraction, Bool.and_eq_true, beq_iff_eq] at h
  simp only [abs, inf, mk.injEq, UInt64.ext_iff]
  show x.bits.toNat % _ = _
  have := UInt64.toNat_lt x.bits
  norm_num at h this ⊢
  omega

theorem abs_sub_comm (x y : Double) : (x.sub y).abs = (y.sub x).abs := by
  unfold sub
  cases hxn : x.isNaN <;> cases hyn : y.isNaN <;> cases hxi : x.isInf <;> cases hyi : y.isInf <;>
    simp only [Bool.or_true, Bool.true_or, Bool.or_false, Bool.false_or, Bool.and_false,
      Bool.false_and, Bool.true_and, ite_true, ite_false, Bool.false_eq_true, ↓reduceIte]
  · rw [abs_round _ false, ← Int.natAbs_neg, neg_sub]
    exact abs_round _ _ _ _
  · rw [abs_of_isInf hyi, abs_inf]
  · rw [abs_of_isInf hxi, abs_inf]
  · rw [Bool.beq_comm]
    split <;> simp only [abs_of_isInf hxi, abs_of_isInf hyi]

theorem log2Search_zero (k : Nat) : log2Search k 0 0 = 0 := by
  induction k with
  | zero => rfl
  | succ k ih => simpa [log2Search] using ih

theorem round_zero (s : Bool) : round s 0 1 = make s 0 0 := by
  simp [round, log2Search_zero]

theorem sub_abs_of_ord_eq {x y : Double} (hx : x.isFinite) (hy : y.isFinite) (h : x.ord = y.ord) :
    (x.sub y).abs = ⟨0⟩ := by
  simp only [isFinite, Bool.and_eq_true, Bool.not_eq_true'] at hx hy
  simp only [sub, hx.1, hx.2, hy.1, hy.2, h, sub_self, Int.natAbs_zero, Bool.false_or,
    Bool.false_and, Bool.or_false, ↓reduceIte, Bool.false_eq_true]
  rw [round_zero, abs_make _ false]
  rfl

theorem lt_irrefl (x : Double) : x.lt x = false := by
  simp [lt]

theorem lt_or_lt_of_ord_ne {x y : Double} (hx : x.isFinite) (hy : y.isFinite) (h : x.ord ≠ y.ord) :
    x.lt y = true ∨ y.lt x = true := by
  simp only [isFinite, Bool.and_eq_true, Bool.not_eq_true'] at hx hy
  simp only [lt, hx.1, hy.1, Bool.not_false, Bool.true_and, decide_eq_true_eq]
  omega

/-! ### The rounding error

`round` keeps `53` bits below the leading one of the exact value, so it adds at most a `2^-52`
share of that value, and one unit where the value is subnormal. -/

theorem log2Search_le (k q L : Nat) (h : 2 ^ L ≤ q) : 2 ^ log2Search k q L ≤ q := by
  induction k generalizing L with
  | zero => exact h
  | succ k ih =>
    unfold log2Search
    split
    · exact ih _ ‹_›
    · exact ih _ h

theorem bits_make {s : Bool} {m p : Nat} (hm : m < 2 ^ 53) (hp : p ≤ 2045) :
    (make s m p).bits.toNat =
      (if s then 2 ^ 63 else 0) + if m < 2 ^ 52 then m else (p + 1) * 2 ^ 52 + (m - 2 ^ 52) := by
  show _ % 2 ^ 64 = _
  apply Nat.mod_eq_of_lt
  split <;> split <;> omega

theorem scaled_make_le {s : Bool} {m p : Nat} (hm : m < 2 ^ 53) (hp : p ≤ 2045) :
    (make s m p).isFinite = true ∧ (make s m p).scaled ≤ m * 2 ^ p := by
  have hb := bits_make (s := s) hm hp
  simp only [isFinite, isNaN, isInf, scaled, significand, unitExp, biasedExp, fraction, hb]
  by_cases hm' : m < 2 ^ 52
  · have he : ((if s then 2 ^ 63 else 0) + m) / 2 ^ 52 % 2 ^ 11 = 0 := by split <;> omega
    have hf : ((if s then 2 ^ 63 else 0) + m) % 2 ^ 52 = m := by split <;> omega
    simp only [hm', ite_true, he, hf]
    exact ⟨rfl, Nat.mul_le_mul_left m (Nat.one_le_two_pow)⟩
  · have he : ((if s then 2 ^ 63 else 0) + ((p + 1) * 2 ^ 52 + (m - 2 ^ 52))) / 2 ^ 52 % 2 ^ 11 =
        p + 1 := by split <;> omega
    have hf : ((if s then 2 ^ 63 else 0) + ((p + 1) * 2 ^ 52 + (m - 2 ^ 52))) % 2 ^ 52 =
        m - 2 ^ 52 := by split <;> omega
    simp only [hm', ite_false, he, hf]
    refine ⟨by simp; omega, le_of_eq ?_⟩
    rw [if_neg (by omega), Nat.add_sub_cancel, Nat.add_sub_cancel' (by omega)]

theorem lt_log2Search (k q L : Nat) (h : q < 2 ^ (L + 2 ^ k)) : q < 2 ^ (log2Search k q L + 1) := by
  induction k generalizing L with
  | zero => simpa using h
  | succ k ih =>
    unfold log2Search
    split
    · exact ih _ (by rwa [Nat.add_assoc, ← Nat.two_mul, ← Nat.pow_succ'])
    · exact ih _ (by omega)

set_option exponentiation.threshold 4200 in
/-- The unit exponent `round` picks leaves `q / 2^p` below `2^53`, and `2^p` is at most a
`2^-52` share of `q`, or `1`. -/
theorem unitExp_bounds (q : Nat) (hq : q < 2 ^ 2097) :
    q / 2 ^ (log2Search 12 q 0 - 52) < 2 ^ 53 ∧ 2 ^ (log2Search 12 q 0 - 52) ≤ q / 2 ^ 52 + 1 ∧
      log2Search 12 q 0 - 52 ≤ 2044 := by
  have h4096 : 2 ^ 2097 ≤ 2 ^ (0 + 2 ^ 12) := Nat.pow_le_pow_right (by norm_num) (by norm_num)
  have hup := lt_log2Search 12 q 0 (lt_of_lt_of_le hq h4096)
  rcases Nat.eq_zero_or_pos q with rfl | hpos
  · simp [log2Search_zero]
  have hlow := log2Search_le 12 q 0 (by simpa using hpos)
  generalize log2Search 12 q 0 = L at hup hlow
  have hL : L < 2097 := (Nat.pow_lt_pow_iff_right (by norm_num)).1 (hlow.trans_lt hq)
  by_cases h52 : 52 ≤ L
  · obtain ⟨p, rfl⟩ : ∃ p, L = p + 52 := ⟨L - 52, by omega⟩
    rw [Nat.add_sub_cancel]
    rw [show p + 52 + 1 = p + 53 by omega] at hup
    have h1 : q / 2 ^ p < 2 ^ 53 := Nat.div_lt_of_lt_mul (by rw [← Nat.pow_add]; exact hup)
    have h2 : 2 ^ p ≤ q / 2 ^ 52 :=
      (Nat.le_div_iff_mul_le (Nat.two_pow_pos 52)).2 (by rw [← Nat.pow_add]; exact hlow)
    exact ⟨h1, by omega, by omega⟩
  · rw [Nat.sub_eq_zero_of_le (by omega)]
    refine ⟨?_, by simp, by omega⟩
    have : q < 2 ^ 53 := hup.trans_le (Nat.pow_le_pow_right (by norm_num) (by omega : L + 1 ≤ 53))
    simpa using this

theorem mul_two_pow_le {m q p : Nat} (hm : m ≤ q / 2 ^ p + 1) (hp : 2 ^ p ≤ q / 2 ^ 52 + 1) :
    m * 2 ^ p ≤ q + q / 2 ^ 52 + 1 :=
  calc m * 2 ^ p ≤ (q / 2 ^ p + 1) * 2 ^ p := Nat.mul_le_mul_right _ hm
    _ = q / 2 ^ p * 2 ^ p + 2 ^ p := Nat.succ_mul _ _
    _ ≤ q + (q / 2 ^ 52 + 1) := Nat.add_le_add (Nat.div_mul_le_self _ _) hp

/-- Below `2^2097` units a rounded value is finite and exceeds the exact one by at most a
`2^-52` share and one unit. -/
theorem round_le (s : Bool) {a d : Nat} (hq : a / d < 2 ^ 2097) :
    (round s a d).isFinite = true ∧ (round s a d).scaled ≤ a / d + a / d / 2 ^ 52 + 1 := by
  obtain ⟨hm, h2p, hp⟩ := unitExp_bounds (a / d) hq
  unfold round
  dsimp only
  rw [← Nat.div_div_eq_div_mul]
  generalize log2Search 12 (a / d) 0 - 52 = p at hm h2p hp ⊢
  set m := a / d / 2 ^ p + if d * 2 ^ p < 2 * (a % (d * 2 ^ p)) ∨
    2 * (a % (d * 2 ^ p)) = d * 2 ^ p ∧ a / d / 2 ^ p % 2 = 1 then 1 else 0 with hmdef
  have hm1 : m ≤ a / d / 2 ^ p + 1 := by rw [hmdef]; split <;> omega
  clear_value m
  split_ifs with h53 h2045 h2045
  · omega
  · have h := scaled_make_le (s := s) (show 2 ^ 52 < 2 ^ 53 by norm_num)
      (show p + 1 ≤ 2045 by omega)
    refine ⟨h.1, h.2.trans (le_of_eq_of_le ?_ (mul_two_pow_le (h53 ▸ hm1) h2p))⟩
    ring
  · omega
  · have h := scaled_make_le (s := s) (show m < 2 ^ 53 by omega) (show p ≤ 2045 by omega)
    exact ⟨h.1, h.2.trans (mul_two_pow_le hm1 h2p)⟩

end Double

end WaykiChain
