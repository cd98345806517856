import Mathlib

/-! # The fuel-rate controller

`GetElementForBurn` averages `nFuel / nFuelRate * 100` over the last `nBlock` blocks, where
`nBlock` is `-blocksizeforburn` narrowed to `int32`, and scales the tip's rate by `0.9` or `1.1`
before clamping it from below. A block index and its `pprev` chain are the list of entries from
that index back to genesis. The `double` products are exact here: `r * 0.9` and `r * 1.1`
truncate to `r * 9 / 10` and `r * 11 / 10` for every 32-bit `r`.
-/

namespace WaykiChain.Miner.FuelRate

/-- The constants the controller reads; they are not in the source, only their order is used. -/
structure FuelConsts where
  INIT_FUEL_RATES : Nat
  MIN_FUEL_RATES : Nat
  MAX_BLOCK_RUN_STEP : Nat
  min_pos : 0 < MIN_FUEL_RATES
  min_le_init : MIN_FUEL_RATES ≤ INIT_FUEL_RATES
  init_lt : INIT_FUEL_RATES < 2 ^ 32

structure CBlockIndex where
  height : Int
  nFuel : Nat
  nFuelRate : UInt32

/-- What C++ leaves undefined: a read through a null `pprev`, an integer division by zero, and
a `double` out of `uint32` range converted to `uint32`. -/
inductive BurnFault
  | nullPrev
  | divByZero
  | rateOverflow
deriving DecidableEq

def toInt32 (v : Int) : Int := (v + 2 ^ 31) % 2 ^ 32 - 2 ^ 31

/-- `for (i = 0; i < nBlock; ++i) { nTotalStep += pTemp->nFuel / pTemp->nFuelRate * 100;
pTemp = pTemp->pprev; }` with a uint64 total. -/
def sumSteps : Nat → List CBlockIndex → Nat → Except BurnFault Nat
  | 0, _, nTotalStep => .ok nTotalStep
  | _ + 1, [], _ => .error .nullPrev
  | n + 1, pTemp :: pprev, nTotalStep =>
    if pTemp.nFuelRate = 0 then .error .divByZero
    else sumSteps n pprev ((nTotalStep + pTemp.nFuel / pTemp.nFuelRate.toNat * 100) % 2 ^ 64)

/-- A `double` rate stored into `uint32_t newFuelRate`. -/
def toUInt32Rate (q : Nat) : Except BurnFault Nat :=
  if q < 2 ^ 32 then .ok q else .error .rateOverflow

/-- The three-way adjustment of the tip's rate and the clamp at `MIN_FUEL_RATES`. -/
def adjustFuelRate (c : FuelConsts) (nFuelRate nAverateStep : Nat) : Except BurnFault Nat := do
  let newFuelRate ←
    if nAverateStep * 4 < c.MAX_BLOCK_RUN_STEP * 3 then toUInt32Rate (nFuelRate * 9 / 10)
    else if nAverateStep * 20 > c.MAX_BLOCK_RUN_STEP * 17 then toUInt32Rate (nFuelRate * 11 / 10)
    else .ok nFuelRate
  pure (if newFuelRate < c.MIN_FUEL_RATES then c.MIN_FUEL_RATES else newFuelRate)

/-- `GetElementForBurn(pIndex)`; `blocksizeforburn` is the `int64` value of the flag. -/
def getElementForBurn (c : FuelConsts) (blocksizeforburn : Int) :
    List CBlockIndex → Except BurnFault Nat
  | [] => .ok c.INIT_FUEL_RATES
  | pIndex :: pprev =>
    let nBlock := toInt32 blocksizeforburn
    if toInt32 (nBlock * 2) ≥ pIndex.height - 1 then .ok c.INIT_FUEL_RATES
    else do
      let nTotalStep ← sumSteps nBlock.toNat (pIndex :: pprev) 0
      if nBlock = 0 then .error .divByZero
      else adjustFuelRate c pIndex.nFuelRate.toNat (nTotalStep / (nBlock % 2 ^ 64).toNat)

theorem adjustFuelRate_ok {c : FuelConsts} {nFuelRate nAverateStep r : Nat}
    (h : adjustFuelRate c nFuelRate nAverateStep = .ok r) : c.MIN_FUEL_RATES ≤ r := by
  simp only [adjustFuelRate, toUInt32Rate, bind, Except.bind, pure, Except.pure] at h
  split_ifs at h <;> cases h <;> first | omega | (split_ifs <;> omega)

theorem adjustFuelRate_error {c : FuelConsts} {nFuelRate nAverateStep : Nat} {f : BurnFault}
    (h : adjustFuelRate c nFuelRate nAverateStep = .error f) : f = .rateOverflow := by
  simp only [adjustFuelRate, toUInt32Rate, bind, Except.bind, pure, Except.pure] at h
  split_ifs at h <;> cases h <;> rfl

theorem getElementForBurn_cons (c : FuelConsts) (blocksizeforburn : Int) (pIndex : CBlockIndex)
    (pprev : List CBlockIndex) :
    getElementForBurn c blocksizeforburn (pIndex :: pprev) =
      if toInt32 (toInt32 blocksizeforburn * 2) ≥ pIndex.height - 1 then .ok c.INIT_FUEL_RATES
      else (sumSteps (toInt32 blocksizeforburn).toNat (pIndex :: pprev) 0).bind fun nTotalStep =>
        if toInt32 blocksizeforburn = 0 then .error .divByZero
        else adjustFuelRate c pIndex.nFuelRate.toNat
          (nTotalStep / (toInt32 blocksizeforburn % 2 ^ 64).toNat) :=
  rfl

theorem getElementForBurn_ge_min {c : FuelConsts} {blocksizeforburn : Int}
    {chain : List CBlockIndex} {r : Nat} (h : getElementForBurn c blocksizeforburn chain = .ok r) :
    c.MIN_FUEL_RATES ≤ r := by
  have := c.min_le_init
  cases chain with
  | nil => cases h; exact this
  | cons pIndex pprev =>
    rw [getElementForBurn_cons] at h
    split_ifs at h
    · cases h; exact this
    · cases hs : sumSteps (toInt32 blocksizeforburn).toNat (pIndex :: pprev) 0 <;>
        rw [hs] at h <;> cases h
    · cases hs : sumSteps (toInt32 blocksizeforburn).toNat (pIndex :: pprev) 0 <;>
        rw [hs] at h
      · cases h
      · exact adjustFuelRate_ok h

/-- The chains of the claim, tip first: heights step down by one to a genesis at height `0`, and
each rate is `INIT_FUEL_RATES` or what `GetElementForBurn` returned for the parent. -/
inductive ValidChain (c : FuelConsts) (blocksizeforburn : Int) : List CBlockIndex → Prop
  | genesis (b : CBlockIndex) : b.height = 0 → b.nFuelRate.toNat = c.INIT_FUEL_RATES →
      ValidChain c blocksizeforburn [b]
  | cons (b parent : CBlockIndex) (pprev : List CBlockIndex) :
      ValidChain c blocksizeforburn (parent :: pprev) → b.height = parent.height + 1 →
      (b.nFuelRate.toNat = c.INIT_FUEL_RATES ∨
        getElementForBurn c blocksizeforburn (parent :: pprev) = .ok b.nFuelRate.toNat) →
      ValidChain c blocksizeforburn (b :: parent :: pprev)

variable {c : FuelConsts} {blocksizeforburn : Int}

theorem ValidChain.length_eq :
    ∀ {b : CBlockIndex} {pprev : List CBlockIndex}, ValidChain c blocksizeforburn (b :: pprev) →
      (pprev.length : Int) = b.height
  | _, [], .genesis _ hb _ => by simp [hb]
  | _, _ :: _, .cons _ _ _ h hb _ => by simp [h.length_eq, hb]

theorem ValidChain.rate_ge_min {chain : List CBlockIndex}
    (h : ValidChain c blocksizeforburn chain) :
    ∀ b ∈ chain, c.MIN_FUEL_RATES ≤ b.nFuelRate.toNat := by
  induction h with
  | genesis b _ hr => simp [hr, c.min_le_init]
  | cons b _ _ _ _ hr ih =>
    refine List.forall_mem_cons.2 ⟨?_, ih⟩
    rcases hr with hr | hr
    · exact hr ▸ c.min_le_init
    · exact getElementForBurn_ge_min hr

theorem sumSteps_ok : ∀ (n : Nat) (chain : List CBlockIndex) (nTotalStep : Nat),
    n ≤ chain.length → (∀ b ∈ chain, 0 < b.nFuelRate.toNat) →
      ∃ t, sumSteps n chain nTotalStep = .ok t
  | 0, _, _, _, _ => ⟨_, rfl⟩
  | n + 1, pTemp :: pprev, nTotalStep, hn, hpos => by
    have hne : pTemp.nFuelRate ≠ 0 := fun h0 => by
      simpa [h0] using hpos pTemp (List.mem_cons_self _ _)
    rw [sumSteps, if_neg hne]
    exact sumSteps_ok n pprev _ (by simpa using hn) fun b hb => hpos b (List.mem_cons_of_mem _ hb)

theorem toInt32_of_range {v : Int} (h₁ : -2 ^ 31 ≤ v) (h₂ : v < 2 ^ 31) : toInt32 v = v := by
  unfold toInt32
  omega

/-- For a nonzero window whose doubling fits in `int32`, along every valid chain the controller
never reads through a null `pprev` and never divides by zero; the only fault left is a rate
whose `1.1` scaling leaves `uint32`. -/
theorem getElementForBurn_safe {chain : List CBlockIndex} (hc : ValidChain c blocksizeforburn chain)
    (h0 : toInt32 blocksizeforburn ≠ 0) (hlo : -2 ^ 30 ≤ toInt32 blocksizeforburn)
    (hhi : toInt32 blocksizeforburn < 2 ^ 30) {f : BurnFault}
    (hf : getElementForBurn c blocksizeforburn chain = .error f) : f = .rateOverflow := by
  obtain ⟨pIndex, pprev, rfl⟩ : ∃ b pprev, chain = b :: pprev := by
    cases hc <;> exact ⟨_, _, rfl⟩
  have hlen := hc.length_eq
  rw [getElementForBurn_cons, toInt32_of_range (by omega) (by omega)] at hf
  split_ifs at hf with hg
  obtain ⟨t, ht⟩ := sumSteps_ok (toInt32 blocksizeforburn).toNat (pIndex :: pprev) 0
    (by simp only [List.length_cons]; omega)
    fun b hb => lt_of_lt_of_le c.min_pos (hc.rate_ge_min b hb)
  rw [ht] at hf
  exact adjustFuelRate_error hf

/-- For a nonzero window whose doubling fits in `int32`, along every valid chain the controller
returns a rate of at least `MIN_FUEL_RATES`, unless the `1.1` scaling leaves `uint32`. -/
theorem getElementForBurn_rate {chain : List CBlockIndex} (hc : ValidChain c blocksizeforburn chain)
    (h0 : toInt32 blocksizeforburn ≠ 0) (hlo : -2 ^ 30 ≤ toInt32 blocksizeforburn)
    (hhi : toInt32 blocksizeforburn < 2 ^ 30) :
    (∃ r, getElementForBurn c blocksizeforburn chain = .ok r ∧ c.MIN_FUEL_RATES ≤ r) ∨
      getElementForBurn c blocksizeforburn chain = .error .rateOverflow := by
  cases h : getElementForBurn c blocksizeforburn chain with
  | ok r => exact .inl ⟨r, rfl, getElementForBurn_ge_min h⟩
  | error f => exact .inr (congrArg _ (getElementForBurn_safe hc h0 hlo hhi h))

theorem getElementForBurn_rate_window_one :
    ValidChain ⟨10, 1, 100, by decide, by decide, by decide⟩ 1
        [⟨4, 50, 10⟩, ⟨3, 0, 10⟩, ⟨2, 0, 10⟩, ⟨1, 0, 10⟩, ⟨0, 0, 10⟩] ∧
      getElementForBurn ⟨10, 1, 100, by decide, by decide, by decide⟩ 1
        [⟨4, 50, 10⟩, ⟨3, 0, 10⟩, ⟨2, 0, 10⟩, ⟨1, 0, 10⟩, ⟨0, 0, 10⟩] = .ok 11 ∧
      ((∃ r, getElementForBurn ⟨10, 1, 100, by decide, by decide, by decide⟩ 1
          [⟨4, 50, 10⟩, ⟨3, 0, 10⟩, ⟨2, 0, 10⟩, ⟨1, 0, 10⟩, ⟨0, 0, 10⟩] = .ok r ∧ 1 ≤ r) ∨
        getElementForBurn ⟨10, 1, 100, by decide, by decide, by decide⟩ 1
          [⟨4, 50, 10⟩, ⟨3, 0, 10⟩, ⟨2, 0, 10⟩, ⟨1, 0, 10⟩, ⟨0, 0, 10⟩] = .error .rateOverflow) :=
  have hc : ValidChain ⟨10, 1, 100, by decide, by decide, by decide⟩ 1
      [⟨4, 50, 10⟩, ⟨3, 0, 10⟩, ⟨2, 0, 10⟩, ⟨1, 0, 10⟩, ⟨0, 0, 10⟩] :=
    .cons _ _ _ (.cons _ _ _ (.cons _ _ _ (.cons _ _ _ (.genesis _ rfl rfl) rfl (.inl rfl)) rfl
      (.inl rfl)) rfl (.inl rfl)) rfl (.inl rfl)
  ⟨hc, rfl, getElementForBurn_rate hc (by decide) (by decide) (by decide)⟩

/-- With `-blocksizeforburn=0`, the tip of a valid three-block chain passes the guard
`0 >= height - 1` and divides the step total by zero. -/
theorem getElementForBurn_zero_window (c : FuelConsts) :
    ValidChain c 0 [⟨2, 0, UInt32.ofNat c.INIT_FUEL_RATES⟩, ⟨1, 0, UInt32.ofNat c.INIT_FUEL_RATES⟩,
        ⟨0, 0, UInt32.ofNat c.INIT_FUEL_RATES⟩] ∧
      getElementForBurn c 0 [⟨2, 0, UInt32.ofNat c.INIT_FUEL_RATES⟩,
        ⟨1, 0, UInt32.ofNat c.INIT_FUEL_RATES⟩, ⟨0, 0, UInt32.ofNat c.INIT_FUEL_RATES⟩] =
        .error .divByZero := by
  have hr : (UInt32.ofNat c.INIT_FUEL_RATES).toNat = c.INIT_FUEL_RATES :=
    UInt32.toNat_ofNat_of_lt c.init_lt
  refine ⟨.cons _ _ _ (.cons _ _ _ (.genesis _ rfl hr) (by norm_num) (.inl hr)) (by norm_num)
    (.inl hr), rfl⟩

end WaykiChain.Miner.FuelRate
