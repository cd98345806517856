import Mathlib
import WaykiChain.Double

/-! # Ratio-index keys of the CDP store

`SaveCDPToRatioDB` and `EraseCDPFromRatioDB` key a CDP by `strprintf("%016x", ratio)`, where
`ratio` is the `double` collateral ratio base times `CDP_BASE_RATIO_BOOST`, stored in a `uint64_t`,
and replaced by `UINT64_MAX` when the test `boostedRatio < collateral_ratio_base`, made in
`double`, says the product overflowed. The rendering is order-preserving on 64-bit values. The
guard also fires when the product truncates to `0`: every positive base below `5·10^-9` takes the
largest key.
-/

namespace WaykiChain.Persistence.RatioKey

def UINT64_MAX : UInt64 := 18446744073709551615

def CDP_BASE_RATIO_BOOST : UInt32 := 100000000

def hexDigit (d : Nat) : Char :=
  if d < 10 then Char.ofNat (48 + d) else Char.ofNat (87 + d)

/-- The `k` lowest hex digits of `n`, most significant first. -/
def hexDigits : Nat → Nat → List Char
  | 0, _ => []
  | k + 1, n => hexDigit (n / 16 ^ k) :: hexDigits k (n % 16 ^ k)

/-- `strprintf("%016x", v)`: a 64-bit value always takes exactly sixteen digits. -/
def format016x (v : UInt64) : String := ⟨hexDigits 16 v.toNat⟩

theorem hexDigit_lt_hexDigit : ∀ d e : Fin 16, d < e → hexDigit d < hexDigit e := by
  decide

/-- Lexicographic order on the digit lists is numeric order below `16 ^ k`. -/
theorem hexDigits_lt_hexDigits (k : Nat) :
    ∀ {a b : Nat}, a < b → b < 16 ^ k → hexDigits k a < hexDigits k b := by
  induction k with
  | zero => intro a b hab hb; simp at hb; omega
  | succ k ih =>
    intro a b hab hb
    rw [hexDigits, hexDigits]
    have hpos : 0 < 16 ^ k := Nat.pos_pow_of_pos k (by decide)
    have hqb : b / 16 ^ k < 16 := Nat.div_lt_of_lt_mul (by rw [← pow_succ]; exact hb)
    have hq : a / 16 ^ k ≤ b / 16 ^ k := Nat.div_le_div_right hab.le
    rcases Nat.lt_or_eq_of_le hq with hlt | heq
    · exact List.Lex.rel (hexDigit_lt_hexDigit ⟨_, by omega⟩ ⟨_, hqb⟩ hlt)
    · have hr : a % 16 ^ k < b % 16 ^ k := by
        have := Nat.div_add_mod a (16 ^ k)
        have := Nat.div_add_mod b (16 ^ k)
        rw [heq] at *
        omega
      rw [heq]
      exact List.Lex.cons (ih hr (Nat.mod_lt _ hpos))

theorem format016x_lt_format016x {a b : UInt64} (h : a.toNat < b.toNat) :
    format016x a < format016x b :=
  String.lt_iff_toList_lt.mpr (hexDigits_lt_hexDigits 16 h b.toNat_lt_size)

/-- `userCdp.collateral_ratio_base * CDP_BASE_RATIO_BOOST`, a `double` product, stored in a
`uint64_t`. -/
def boostedRatio (collateralRatioBase : Double) : Option UInt64 :=
  (collateralRatioBase.mul (.ofUInt64 CDP_BASE_RATIO_BOOST.toUInt64)).toUInt64?

/-- `(boostedRatio < userCdp.collateral_ratio_base /* overflown */) ? UINT64_MAX : boostedRatio`,
the comparison made in `double`. -/
def ratio (collateralRatioBase : Double) : Option UInt64 :=
  (boostedRatio collateralRatioBase).map fun boostedRatio =>
    if (Double.ofUInt64 boostedRatio).lt collateralRatioBase then UINT64_MAX else boostedRatio

/-- The key prefix both `SaveCDPToRatioDB` and `EraseCDPFromRatioDB` compute. -/
def strRatio (collateralRatioBase : Double) : Option String :=
  (ratio collateralRatioBase).map format016x

/-- The key as the spec states it for a finite base of sign `+`:
`format16hex(min(UINT64_MAX, collateral_ratio_base × 1e8))`, the product taken exactly and its
fraction dropped. -/
def specRatioKey (collateralRatioBase : Double) : Option String :=
  if collateralRatioBase.isNaN || collateralRatioBase.isInf || collateralRatioBase.signBit then none
  else some (format016x (UInt64.ofNat
    (min UINT64_MAX.toNat (collateralRatioBase.scaled * 100000000 / 2 ^ 1074))))

set_option exponentiation.threshold 4200 in
theorem ofUInt64_boost :
    (Double.ofUInt64 CDP_BASE_RATIO_BOOST.toUInt64).isNaN = false ∧
      (Double.ofUInt64 CDP_BASE_RATIO_BOOST.toUInt64).isInf = false ∧
      (Double.ofUInt64 CDP_BASE_RATIO_BOOST.toUInt64).signBit = false ∧
      (Double.ofUInt64 CDP_BASE_RATIO_BOOST.toUInt64).scaled = 100000000 * 2 ^ 1074 :=
  ⟨rfl, rfl, rfl, rfl⟩

set_option exponentiation.threshold 4200 in
/-- Every positive base whose exact product with the boost is below `1/2` is keyed as saturated:
the rounded product truncates to `0`, below the base. The spec's key is `0`. -/
theorem strRatio_of_underflow {b : Double} (hb : b.isFinite) (hs : b.signBit = false)
    (hpos : 0 < b.scaled) (hsmall : 2 * (b.scaled * 100000000) < 2 ^ 1074) :
    strRatio b = some (format016x UINT64_MAX) ∧ specRatioKey b = some (format016x 0) := by
  simp only [Double.isFinite, Bool.and_eq_true, Bool.not_eq_true'] at hb
  obtain ⟨hn, hi, hsb, hsc⟩ := ofUInt64_boost
  have hq : b.scaled * (100000000 * 2 ^ 1074) / 2 ^ 1074 = b.scaled * 100000000 := by
    rw [← Nat.mul_assoc, Nat.mul_div_cancel _ (Nat.two_pow_pos 1074)]
  obtain ⟨hfin, hle⟩ := Double.round_le false
    (show b.scaled * (100000000 * 2 ^ 1074) / 2 ^ 1074 < 2 ^ 2097 by rw [hq]; omega)
  simp only [Double.isFinite, Bool.and_eq_true, Bool.not_eq_true'] at hfin
  have htrunc : (Double.round false (b.scaled * (100000000 * 2 ^ 1074)) (2 ^ 1074)).scaled /
      2 ^ 1074 = 0 := Nat.div_eq_of_lt (by rw [hq] at hle; omega)
  have hzero : (Double.ofUInt64 0).lt b = true := by
    have h0 : Double.ofUInt64 0 = ⟨0⟩ := rfl
    have hord : b.ord = b.scaled := by simp [Double.ord, hb.2, hs]
    rw [h0, Double.lt, hord, hb.1]
    exact decide_eq_true (show (0 : Int) < b.scaled by exact_mod_cast hpos)
  simp only [strRatio, ratio, boostedRatio, Double.mul, specRatioKey, hb.1, hb.2, hn, hi, hsb, hs,
    hsc, Bool.or_self, Bool.false_eq_true, ↓reduceIte, bne_self_eq_false, Double.toUInt64?, hfin.1,
    hfin.2, htrunc, hzero, Option.map_some', Nat.min_zero,
    Nat.div_eq_of_lt (by omega : b.scaled * 100000000 < 2 ^ 1074)]
  exact ⟨trivial, rfl⟩

set_option exponentiation.threshold 4200 in
/-- The base `2^-30`, one bcoin staked against `2^30` scoins owed: its product `0.093…` truncates
to `0`, below the base, so the guard saturates the key, which sorts above the key of the larger
base `1`; the spec's key is `0`. -/
theorem strRatio_underflow_saturated :
    (Double.mk 0x3E10000000000000).lt ⟨0x3FF0000000000000⟩ = true ∧
      strRatio ⟨0x3E10000000000000⟩ = some (format016x UINT64_MAX) ∧
      strRatio ⟨0x3FF0000000000000⟩ = some (format016x 100000000) ∧
      format016x 100000000 < format016x UINT64_MAX ∧
      specRatioKey ⟨0x3E10000000000000⟩ = some (format016x 0) :=
  ⟨rfl, rfl, rfl, format016x_lt_format016x (by decide), rfl⟩

end WaykiChain.Persistence.RatioKey
