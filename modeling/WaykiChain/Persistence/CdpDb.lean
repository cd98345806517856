import Mathlib
import WaykiChain.Persistence.RatioKey

/-! # The CDP store: primary table, owner index, ratio index and global counters

`CCdpDBCache` keeps five stores in step: `cdpCache` (cdpid to CDP), `regId2CDPCache` (owner to
the set of its cdpids), `ratioCDPIdCache` ((ratio key, cdpid) to CDP) and the two uint64
counters of staked bcoins and owed scoins. Each store is seen as its `GetData` sees it; an
empty owner set is an absent key, as `regId2CDPCache.SetData` erases it. A call whose ratio key is
undefined, the boosted `double` base not converting to `uint64_t`, fails. The global collateral
checks read only the two counters, which on every reachable store are the live sums modulo `2^64`.
-/

namespace WaykiChain.Persistence.CdpDb
open RatioKey

/-- The fields of `CUserCDP` that the store reads. -/
structure CUserCDP (TxId RegId : Type) where
  cdpid : TxId
  ownerRegid : RegId
  totalStakedBcoins : UInt64
  totalOwedScoins : UInt64
  collateralRatioBase : Double
deriving DecidableEq

structure CCdpDBCache (TxId RegId : Type) where
  globalStakedBcoins : UInt64
  globalOwedScoins : UInt64
  cdpCache : TxId → Option (CUserCDP TxId RegId)
  regId2CDPCache : RegId → Finset TxId
  ratioCDPIdCache : String × TxId → Option (CUserCDP TxId RegId)

variable {TxId RegId : Type} [LinearOrder TxId] [DecidableEq RegId]

/-- The store a fresh `CCdpDBCache` reads: no CDP and both counters at their default `0`. -/
def CCdpDBCache.empty : CCdpDBCache TxId RegId :=
  ⟨0, 0, fun _ => none, fun _ => ∅, fun _ => none⟩

def saveCDPToDB (cdp : CUserCDP TxId RegId) (s : CCdpDBCache TxId RegId) :
    CCdpDBCache TxId RegId :=
  { s with
    cdpCache := Function.update s.cdpCache cdp.cdpid (some cdp)
    regId2CDPCache := Function.update s.regId2CDPCache cdp.ownerRegid
      (insert cdp.cdpid (s.regId2CDPCache cdp.ownerRegid)) }

def eraseCDPFromDB (cdp : CUserCDP TxId RegId) (s : CCdpDBCache TxId RegId) :
    CCdpDBCache TxId RegId :=
  { s with
    cdpCache := Function.update s.cdpCache cdp.cdpid none
    regId2CDPCache := Function.update s.regId2CDPCache cdp.ownerRegid
      ((s.regId2CDPCache cdp.ownerRegid).erase cdp.cdpid) }

theorem row_of_saveCDPToDB {cdp c : CUserCDP TxId RegId} {s : CCdpDBCache TxId RegId} {id : TxId}
    (h : (saveCDPToDB cdp s).cdpCache id = some c) :
    id = cdp.cdpid ∧ c = cdp ∨ s.cdpCache id = some c := by
  simp only [saveCDPToDB, Function.update_apply] at h
  split_ifs at h with hid
  · exact .inl ⟨hid, (Option.some.inj h).symm⟩
  · exact .inr h

theorem row_of_eraseCDPFromDB {cdp c : CUserCDP TxId RegId} {s : CCdpDBCache TxId RegId}
    {id : TxId} (h : (eraseCDPFromDB cdp s).cdpCache id = some c) : s.cdpCache id = some c := by
  simp only [eraseCDPFromDB, Function.update_apply] at h
  split_ifs at h
  exact h

/-- Both counters grow in wrapping uint64 arithmetic, and the CDP is keyed by `strRatio`. -/
def saveCDPToRatioDB (userCdp : CUserCDP TxId RegId) (s : CCdpDBCache TxId RegId) :
    Option (CCdpDBCache TxId RegId) :=
  (strRatio userCdp.collateralRatioBase).map fun strRatio =>
    { s with
      globalStakedBcoins := s.globalStakedBcoins + userCdp.totalStakedBcoins
      globalOwedScoins := s.globalOwedScoins + userCdp.totalOwedScoins
      ratioCDPIdCache :=
        Function.update s.ratioCDPIdCache (strRatio, userCdp.cdpid) (some userCdp) }

def eraseCDPFromRatioDB (userCdp : CUserCDP TxId RegId) (s : CCdpDBCache TxId RegId) :
    Option (CCdpDBCache TxId RegId) :=
  (strRatio userCdp.collateralRatioBase).map fun strRatio =>
    { s with
      globalStakedBcoins := s.globalStakedBcoins - userCdp.totalStakedBcoins
      globalOwedScoins := s.globalOwedScoins - userCdp.totalOwedScoins
      ratioCDPIdCache := Function.update s.ratioCDPIdCache (strRatio, userCdp.cdpid) none }

def newCDP (cdp : CUserCDP TxId RegId) (s : CCdpDBCache TxId RegId) :
    Option (CCdpDBCache TxId RegId) :=
  saveCDPToRatioDB cdp (saveCDPToDB cdp s)

/-- The owner index and primary row are erased for `cdp`, the ratio entry for `oldCDP`. -/
def eraseCDP (oldCDP cdp : CUserCDP TxId RegId) (s : CCdpDBCache TxId RegId) :
    Option (CCdpDBCache TxId RegId) :=
  eraseCDPFromRatioDB oldCDP (eraseCDPFromDB cdp s)

def updateCDP (oldCDP newCDP : CUserCDP TxId RegId) (s : CCdpDBCache TxId RegId) :
    Option (CCdpDBCache TxId RegId) :=
  (eraseCDPFromRatioDB oldCDP (saveCDPToDB newCDP s)).bind (saveCDPToRatioDB newCDP)

/-- The loop of `GetCDPList` over the owner's cdpids: it stops at the first missing row. -/
def collectCDPs (s : CCdpDBCache TxId RegId) :
    List TxId → List (CUserCDP TxId RegId) → Bool × List (CUserCDP TxId RegId)
  | [], cdpList => (true, cdpList)
  | id :: ids, cdpList =>
    match s.cdpCache id with
    | none => (false, cdpList)
    | some userCdp => collectCDPs s ids (cdpList ++ [userCdp])

/-- `std::set<uint256>` iterates in increasing order; an empty set is a missing key. -/
def getCDPList (regId : RegId) (s : CCdpDBCache TxId RegId) :
    Bool × List (CUserCDP TxId RegId) :=
  if s.regId2CDPCache regId = ∅ then (false, [])
  else collectCDPs s ((s.regId2CDPCache regId).sort (· ≤ ·)) []

def RATIO_BOOST : UInt16 := 10000

def PRICE_BOOST : UInt32 := 100000000

/-- `GetGlobalCollateralRatio(bcoinMedianPrice)`: `UINT64_MAX` while the owed counter is `0`, else
the `double` expression, converted to `uint64_t` on return. -/
def getGlobalCollateralRatio (bcoinMedianPrice : UInt64) (s : CCdpDBCache TxId RegId) :
    Option UInt64 :=
  if s.globalOwedScoins = 0 then some UINT64_MAX
  else ((((Double.ofUInt64 s.globalStakedBcoins).mul (.ofUInt64 bcoinMedianPrice)).div
    (.ofUInt64 PRICE_BOOST.toUInt64)).div (.ofUInt64 s.globalOwedScoins)).mul
      (.ofUInt64 RATIO_BOOST.toUInt64) |>.toUInt64?

def checkGlobalCollateralRatioFloorReached (bcoinMedianPrice globalCollateralRatioLimit : UInt64)
    (s : CCdpDBCache TxId RegId) : Option Bool :=
  (getGlobalCollateralRatio bcoinMedianPrice s).map (· < globalCollateralRatioLimit)

/-- `CheckGlobalCollateralCeilingReached(newBcoinsToStake, globalCollateralCeiling)` in `uint64_t`
arithmetic; `COIN` is the coin unit of `const.h`. -/
def checkGlobalCollateralCeilingReached (COIN newBcoinsToStake globalCollateralCeiling : UInt64)
    (s : CCdpDBCache TxId RegId) : Bool :=
  newBcoinsToStake + s.globalStakedBcoins > globalCollateralCeiling * COIN

section Invariant
variable [Fintype TxId]

def fieldVal (field : CUserCDP TxId RegId → UInt64) (row : Option (CUserCDP TxId RegId)) : Nat :=
  (row.map fun c => (field c).toNat).getD 0

def liveSum (field : CUserCDP TxId RegId → UInt64) (cdps : TxId → Option (CUserCDP TxId RegId)) :
    Nat :=
  ∑ id, fieldVal field (cdps id)

omit [DecidableEq RegId] in
theorem liveSum_update (field : CUserCDP TxId RegId → UInt64)
    (cdps : TxId → Option (CUserCDP TxId RegId)) (id : TxId) (row : Option (CUserCDP TxId RegId)) :
    liveSum field (Function.update cdps id row) + fieldVal field (cdps id) =
      liveSum field cdps + fieldVal field row := by
  have hrest : ∑ j ∈ {id}ᶜ, fieldVal field (Function.update cdps id row j) =
      ∑ j ∈ {id}ᶜ, fieldVal field (cdps j) :=
    Finset.sum_congr rfl fun j hj => by
      rw [Function.update_noteq (by simpa using hj)]
  simp only [liveSum, Fintype.sum_eq_add_sum_compl id, Function.update_same, hrest]
  omega

/-- A counter tracks a field when it is the live sum of that field modulo `2 ^ 64`. -/
def Tracks (counter : UInt64) (field : CUserCDP TxId RegId → UInt64)
    (cdps : TxId → Option (CUserCDP TxId RegId)) : Prop :=
  counter.toNat = liveSum field cdps % UInt64.size

omit [DecidableEq RegId] in
theorem Tracks.add {counter : UInt64} {field : CUserCDP TxId RegId → UInt64}
    {cdps : TxId → Option (CUserCDP TxId RegId)} (h : Tracks counter field cdps) (id : TxId)
    (c : CUserCDP TxId RegId) (hid : cdps id = none) :
    Tracks (counter + field c) field (Function.update cdps id (some c)) := by
  have := liveSum_update field cdps id (some c)
  simp only [fieldVal, hid, Option.map_none', Option.getD_none, Option.map_some',
    Option.getD_some] at this
  rw [Tracks, UInt64.toNat_add, h, Nat.mod_add_mod, ← this, Nat.add_zero]

omit [DecidableEq RegId] in
theorem Tracks.sub {counter : UInt64} {field : CUserCDP TxId RegId → UInt64}
    {cdps : TxId → Option (CUserCDP TxId RegId)} (h : Tracks counter field cdps) (id : TxId)
    (c : CUserCDP TxId RegId) (hid : cdps id = some c) :
    Tracks (counter - field c) field (Function.update cdps id none) := by
  have := liveSum_update field cdps id none
  simp only [fieldVal, hid, Option.map_none', Option.getD_none, Option.map_some',
    Option.getD_some] at this
  have hlt := (field c).toNat_lt
  rw [Tracks, UInt64.toNat_sub, h]
  unfold UInt64.size
  omega

/-- The invariant of every reachable store: rows sit under their own cdpid, the counters track
the live sums, every live CDP has a ratio key, and both indexes are exact. -/
structure Inv (s : CCdpDBCache TxId RegId) : Prop where
  cdpid_eq : ∀ id c, s.cdpCache id = some c → c.cdpid = id
  staked : Tracks s.globalStakedBcoins (·.totalStakedBcoins) s.cdpCache
  owed : Tracks s.globalOwedScoins (·.totalOwedScoins) s.cdpCache
  keyed : ∀ id c, s.cdpCache id = some c → (strRatio c.collateralRatioBase).isSome
  ratio : ∀ k id, s.ratioCDPIdCache (k, id) =
    (s.cdpCache id).filter fun c => strRatio c.collateralRatioBase = some k
  owners : ∀ r id, id ∈ s.regId2CDPCache r ↔ ∃ c, s.cdpCache id = some c ∧ r = c.ownerRegid

omit [LinearOrder TxId] [DecidableEq RegId] in
theorem inv_empty : Inv (CCdpDBCache.empty : CCdpDBCache TxId RegId) where
  cdpid_eq := by simp [CCdpDBCache.empty]
  staked := by simp [Tracks, CCdpDBCache.empty, liveSum, fieldVal]
  owed := by simp [Tracks, CCdpDBCache.empty, liveSum, fieldVal]
  keyed := by simp [CCdpDBCache.empty]
  ratio := by simp [CCdpDBCache.empty]
  owners := by simp [CCdpDBCache.empty]

theorem inv_newCDP {s s' : CCdpDBCache TxId RegId} (hi : Inv s) {cdp : CUserCDP TxId RegId}
    (hfresh : s.cdpCache cdp.cdpid = none) (h : newCDP cdp s = some s') : Inv s' := by
  obtain ⟨k, hk, rfl⟩ := Option.map_eq_some'.1 h
  exact {
    cdpid_eq := fun id c h => (row_of_saveCDPToDB h).elim (fun ⟨hid, hc⟩ => hc ▸ hid.symm)
      (hi.cdpid_eq id c)
    staked := hi.staked.add cdp.cdpid cdp hfresh
    owed := hi.owed.add cdp.cdpid cdp hfresh
    keyed := fun id c h => (row_of_saveCDPToDB h).elim (fun ⟨_, hc⟩ => by simp [hc, hk])
      (hi.keyed id c)
    ratio := fun k' id => by
      simp only [saveCDPToDB, Function.update_apply, Prod.mk.injEq, hi.ratio]
      by_cases hid : id = cdp.cdpid
      · subst hid
        rcases eq_or_ne k' k with rfl | hk' <;> simp [hk, hfresh, Option.filter_some, *, Ne.symm]
      · simp [hid]
    owners := fun r id => by
      simp only [saveCDPToDB, Function.update_apply]
      by_cases hr : r = cdp.ownerRegid <;> by_cases hid : id = cdp.cdpid <;>
        simp [hr, hid, hi.owners, hfresh] }

theorem inv_updateCDP {s s' : CCdpDBCache TxId RegId} (hi : Inv s)
    {oldCDP newCDP : CUserCDP TxId RegId}
    (hold : s.cdpCache oldCDP.cdpid = some oldCDP) (hid : newCDP.cdpid = oldCDP.cdpid)
    (hown : newCDP.ownerRegid = oldCDP.ownerRegid) (h : updateCDP oldCDP newCDP s = some s') :
    Inv s' := by
  obtain ⟨s₁, h₁, h₂⟩ := Option.bind_eq_some.1 h
  obtain ⟨k₀, hk₀, rfl⟩ := Option.map_eq_some'.1 h₁
  obtain ⟨k, hk, rfl⟩ := Option.map_eq_some'.1 h₂
  exact {
    cdpid_eq := fun id c h => (row_of_saveCDPToDB h).elim (fun ⟨hid, hc⟩ => hc ▸ hid.symm)
      (hi.cdpid_eq id c)
    staked := by
      have := (hi.staked.sub _ _ hold).add oldCDP.cdpid newCDP (Function.update_same _ _ _)
      simpa only [saveCDPToDB, hid, Function.update_idem] using this
    owed := by
      have := (hi.owed.sub _ _ hold).add oldCDP.cdpid newCDP (Function.update_same _ _ _)
      simpa only [saveCDPToDB, hid, Function.update_idem] using this
    keyed := fun id c h => (row_of_saveCDPToDB h).elim (fun ⟨_, hc⟩ => by simp [hc, hk])
      (hi.keyed id c)
    ratio := fun k' id => by
      simp only [saveCDPToDB, hid, Function.update_apply, Prod.mk.injEq, hi.ratio]
      by_cases hc : id = oldCDP.cdpid
      · subst hc
        rcases eq_or_ne k' k with rfl | hk' <;> rcases eq_or_ne k' k₀ with rfl | hk'' <;>
          simp [hk, hk₀, hold, Option.filter_some, *, Ne.symm]
      · simp [hc]
    owners := fun r id => by
      simp only [saveCDPToDB, hid, hown, Function.update_apply]
      by_cases hr : r = oldCDP.ownerRegid <;> by_cases hc : id = oldCDP.cdpid <;>
        simp [hr, hc, hi.owners, hold, hown] }

theorem inv_eraseCDP {s s' : CCdpDBCache TxId RegId} (hi : Inv s)
    {oldCDP cdp : CUserCDP TxId RegId} (hold : s.cdpCache oldCDP.cdpid = some oldCDP)
    (hid : cdp.cdpid = oldCDP.cdpid) (hown : cdp.ownerRegid = oldCDP.ownerRegid)
    (h : eraseCDP oldCDP cdp s = some s') : Inv s' := by
  obtain ⟨k, hk, rfl⟩ := Option.map_eq_some'.1 h
  exact {
    cdpid_eq := fun id c h => hi.cdpid_eq id c (row_of_eraseCDPFromDB h)
    staked := by simpa only [eraseCDPFromDB, hid] using hi.staked.sub _ _ hold
    owed := by simpa only [eraseCDPFromDB, hid] using hi.owed.sub _ _ hold
    keyed := fun id c h => hi.keyed id c (row_of_eraseCDPFromDB h)
    ratio := fun k' id => by
      simp only [eraseCDPFromDB, hid, Function.update_apply, Prod.mk.injEq, hi.ratio]
      by_cases hc : id = oldCDP.cdpid
      · subst hc
        rcases eq_or_ne k' k with rfl | hk' <;> simp [hk, hold, Option.filter_some, *, Ne.symm]
      · simp [hc]
    owners := fun r id => by
      simp only [eraseCDPFromDB, hid, hown, Function.update_apply]
      by_cases hr : r = oldCDP.ownerRegid <;> by_cases hc : id = oldCDP.cdpid <;>
        simp [hr, hc, hi.owners, hold] }

inductive CdpCall (TxId RegId : Type)
  | new (cdp : CUserCDP TxId RegId)
  | update (oldCDP newCDP : CUserCDP TxId RegId)
  | erase (oldCDP cdp : CUserCDP TxId RegId)

/-- What callers promise: `NewCDP`'s assert, and for the other two that `oldCDP` is the stored row
and the second CDP keeps its cdpid and owner. -/
def CdpCall.Admissible (s : CCdpDBCache TxId RegId) : CdpCall TxId RegId → Prop
  | .new cdp => s.cdpCache cdp.cdpid = none
  | .update oldCDP newCDP => s.cdpCache oldCDP.cdpid = some oldCDP ∧
      newCDP.cdpid = oldCDP.cdpid ∧ newCDP.ownerRegid = oldCDP.ownerRegid
  | .erase oldCDP cdp => s.cdpCache oldCDP.cdpid = some oldCDP ∧
      cdp.cdpid = oldCDP.cdpid ∧ cdp.ownerRegid = oldCDP.ownerRegid

instance (s : CCdpDBCache TxId RegId) : DecidablePred (CdpCall.Admissible s)
  | .new _ => inferInstanceAs (Decidable (_ = _))
  | .update _ _ => inferInstanceAs (Decidable (_ ∧ _ ∧ _))
  | .erase _ _ => inferInstanceAs (Decidable (_ ∧ _ ∧ _))

def CdpCall.run : CdpCall TxId RegId → CCdpDBCache TxId RegId → Option (CCdpDBCache TxId RegId)
  | .new cdp => newCDP cdp
  | .update oldCDP newCDP => updateCDP oldCDP newCDP
  | .erase oldCDP cdp => eraseCDP oldCDP cdp

/-- The stores reached from the empty one by admissible calls that return. -/
inductive Reachable : CCdpDBCache TxId RegId → Prop
  | empty : Reachable CCdpDBCache.empty
  | call {s s' : CCdpDBCache TxId RegId} (c : CdpCall TxId RegId) :
      Reachable s → c.Admissible s → c.run s = some s' → Reachable s'

theorem inv_call {s s' : CCdpDBCache TxId RegId} (hi : Inv s) :
    ∀ c : CdpCall TxId RegId, c.Admissible s → c.run s = some s' → Inv s'
  | .new _, hadm, h => inv_newCDP hi hadm h
  | .update _ _, ⟨hold, hid, hown⟩, h => inv_updateCDP hi hold hid hown h
  | .erase _ _, ⟨hold, hid, hown⟩, h => inv_eraseCDP hi hold hid hown h

theorem Reachable.inv {s : CCdpDBCache TxId RegId} (h : Reachable s) : Inv s := by
  induction h with
  | empty => exact inv_empty
  | call c _ hc hr ih => exact inv_call ih c hc hr

omit [LinearOrder TxId] [DecidableEq RegId] in
theorem Tracks.exact {counter : UInt64} {field : CUserCDP TxId RegId → UInt64}
    {cdps : TxId → Option (CUserCDP TxId RegId)} (h : Tracks counter field cdps)
    (hfit : liveSum field cdps < 2 ^ 64) :
    counter.toNat = liveSum field cdps ∧
      ∀ c, cdps c.cdpid = some c → (field c).toNat ≤ counter.toNat := by
  have hc : counter.toNat = liveSum field cdps := h.trans (Nat.mod_eq_of_lt hfit)
  refine ⟨hc, fun c hc' => hc ▸ ?_⟩
  have := Finset.single_le_sum (f := fun id => fieldVal field (cdps id))
    (fun _ _ => Nat.zero_le _) (Finset.mem_univ c.cdpid)
  simpa [fieldVal, hc'] using this

omit [LinearOrder TxId] [Fintype TxId] [DecidableEq RegId] in
theorem collectCDPs_of_live (s : CCdpDBCache TxId RegId) :
    ∀ (ids : List TxId) (cdpList : List (CUserCDP TxId RegId)),
      (∀ id ∈ ids, (s.cdpCache id).isSome) →
        collectCDPs s ids cdpList = (true, cdpList ++ ids.filterMap s.cdpCache)
  | [], _, _ => by simp [collectCDPs]
  | id :: ids, cdpList, h => by
    obtain ⟨c, hc⟩ := Option.isSome_iff_exists.1 (h id (List.mem_cons_self _ _))
    simp only [collectCDPs, hc,
      collectCDPs_of_live s ids _ fun j hj => h j (List.mem_cons_of_mem _ hj)]
    simp [hc]

omit [DecidableEq RegId] in
theorem getCDPList_of_inv {s : CCdpDBCache TxId RegId} (hi : Inv s) (r : RegId) :
    (getCDPList r s).2 = ((s.regId2CDPCache r).sort (· ≤ ·)).filterMap s.cdpCache := by
  unfold getCDPList
  split_ifs with h
  · simp [h]
  · rw [collectCDPs_of_live s _ _ fun id hid => ?_]
    · simp
    · obtain ⟨c, hc, -⟩ := (hi.owners r id).1 ((Finset.mem_sort _).1 hid)
      simp [hc]

/-- What a consistent store guarantees: while a sum fits in 64 bits its counter is that sum and
no live CDP exceeds it, every live CDP has a ratio key and the ratio index holds exactly one entry
per live CDP, under that key, the owner index is exact, and `GetCDPList` returns exactly the owner's
live CDPs. -/
def CdpStoreSpec (s : CCdpDBCache TxId RegId) : Prop :=
  (liveSum (·.totalStakedBcoins) s.cdpCache < 2 ^ 64 →
    s.globalStakedBcoins.toNat = liveSum (·.totalStakedBcoins) s.cdpCache ∧
    ∀ c, s.cdpCache c.cdpid = some c → c.totalStakedBcoins.toNat ≤ s.globalStakedBcoins.toNat) ∧
  (liveSum (·.totalOwedScoins) s.cdpCache < 2 ^ 64 →
    s.globalOwedScoins.toNat = liveSum (·.totalOwedScoins) s.cdpCache ∧
    ∀ c, s.cdpCache c.cdpid = some c → c.totalOwedScoins.toNat ≤ s.globalOwedScoins.toNat) ∧
  (∀ id c, s.cdpCache id = some c → ∃ k, strRatio c.collateralRatioBase = some k) ∧
  (∀ k id c, s.ratioCDPIdCache (k, id) = some c ↔
    s.cdpCache id = some c ∧ strRatio c.collateralRatioBase = some k) ∧
  (∀ r id, id ∈ s.regId2CDPCache r ↔ ∃ c, s.cdpCache id = some c ∧ c.ownerRegid = r) ∧
  ∀ r, (getCDPList r s).2.Nodup ∧
    ∀ c, c ∈ (getCDPList r s).2 ↔ s.cdpCache c.cdpid = some c ∧ c.ownerRegid = r

omit [DecidableEq RegId] in
theorem Inv.spec {s : CCdpDBCache TxId RegId} (hi : Inv s) : CdpStoreSpec s := by
  refine ⟨hi.staked.exact, hi.owed.exact,
    fun id c h => Option.isSome_iff_exists.1 (hi.keyed id c h), fun k id c => ?_, fun r id => ?_,
    fun r => ?_⟩
  · rw [hi.ratio, Option.filter_eq_some]
    simp
  · simp [hi.owners, eq_comm]
  · rw [getCDPList_of_inv hi]
    refine ⟨(Finset.sort_nodup _ _).filterMap fun a a' c ha ha' => ?_, fun c => ?_⟩
    · exact (hi.cdpid_eq a c ha).symm.trans (hi.cdpid_eq a' c ha')
    · simp only [List.mem_filterMap, Finset.mem_sort, hi.owners]
      constructor
      · rintro ⟨id, ⟨c', hc', rfl⟩, hc⟩
        rw [hc'] at hc
        cases hc
        exact ⟨hi.cdpid_eq id _ hc' ▸ hc', rfl⟩
      · rintro ⟨hc, rfl⟩
        exact ⟨c.cdpid, ⟨c, hc, rfl⟩, hc⟩

theorem cdp_store_consistent {s : CCdpDBCache TxId RegId} (h : Reachable s) : CdpStoreSpec s :=
  h.inv.spec

/-- On every reachable store the ceiling check compares, modulo `2^64`, the new stake plus the
bcoins staked in the live CDPs with `globalCollateralCeiling × COIN`: the exact comparison while
neither side reaches `2^64`. -/
theorem checkGlobalCollateralCeilingReached_iff {s : CCdpDBCache TxId RegId} (h : Reachable s)
    (COIN newBcoinsToStake globalCollateralCeiling : UInt64) :
    checkGlobalCollateralCeilingReached COIN newBcoinsToStake globalCollateralCeiling s = true ↔
      globalCollateralCeiling.toNat * COIN.toNat % 2 ^ 64 <
        (newBcoinsToStake.toNat + liveSum (·.totalStakedBcoins) s.cdpCache) % 2 ^ 64 := by
  have hs : s.globalStakedBcoins.toNat = _ := h.inv.staked
  simp only [checkGlobalCollateralCeilingReached, gt_iff_lt, decide_eq_true_eq]
  show (globalCollateralCeiling * COIN).toNat < (newBcoinsToStake + s.globalStakedBcoins).toNat ↔ _
  rw [UInt64.toNat_mul, UInt64.toNat_add, hs, Nat.add_mod_mod]
  rfl

/-- On every reachable store whose live CDPs owe a multiple of `2^64` scoins, none in particular,
the owed counter reads `0` and the floor check never fires, whatever the price and the limit. -/
theorem checkGlobalCollateralRatioFloorReached_of_owed {s : CCdpDBCache TxId RegId}
    (h : Reachable s) (howed : liveSum (·.totalOwedScoins) s.cdpCache % 2 ^ 64 = 0)
    (bcoinMedianPrice globalCollateralRatioLimit : UInt64) :
    checkGlobalCollateralRatioFloorReached bcoinMedianPrice globalCollateralRatioLimit s =
      some false := by
  have ho : s.globalOwedScoins = 0 := UInt64.ext (h.inv.owed.trans howed)
  have hmax : ¬UINT64_MAX < globalCollateralRatioLimit := fun hlt =>
    absurd globalCollateralRatioLimit.toNat_lt (not_lt.2 (Nat.succ_le_of_lt hlt))
  simp [checkGlobalCollateralRatioFloorReached, getGlobalCollateralRatio, ho, hmax]

end Invariant

/-- The calls of `cs` in order from `s`, each checked admissible first. -/
def replay : List (CdpCall TxId RegId) → CCdpDBCache TxId RegId → Option (CCdpDBCache TxId RegId)
  | [], s => some s
  | c :: cs, s => if c.Admissible s then (c.run s).bind (replay cs) else none

theorem Reachable.replay {s : CCdpDBCache TxId RegId} (h : Reachable s) :
    ∀ {cs : List (CdpCall TxId RegId)} {s'}, replay cs s = some s' → Reachable s'
  | [], _, hr => by cases hr; exact h
  | c :: cs, _, hr => by
    simp only [CdpDb.replay] at hr
    split_ifs at hr with hadm
    obtain ⟨s₁, h₁, h₂⟩ := Option.bind_eq_some.1 hr
    exact (Reachable.call c h hadm h₁).replay h₂

def one : Double := ⟨0x3FF0000000000000⟩

def oneAndHalf : Double := ⟨0x3FF8000000000000⟩

def two : Double := ⟨0x4000000000000000⟩

/-- Owner `0` opens CDP `0` at base `1.0` and raises its stake to base `1.5`, owner `1` opens CDP
`1` at base `2.0`, and CDP `0` is erased. -/
def sampleCalls : List (CdpCall (Fin 2) (Fin 2)) :=
  [.new ⟨0, 0, 5, 3, one⟩, .update ⟨0, 0, 5, 3, one⟩ ⟨0, 0, 9, 6, oneAndHalf⟩,
    .new ⟨1, 1, 4, 2, two⟩, .erase ⟨0, 0, 9, 6, oneAndHalf⟩ ⟨0, 0, 9, 6, oneAndHalf⟩]

set_option exponentiation.threshold 4200 in
theorem cdp_store_consistent_after_calls :
    ∃ s, replay sampleCalls CCdpDBCache.empty = some s ∧ Reachable s ∧ CdpStoreSpec s :=
  have h : replay sampleCalls CCdpDBCache.empty = some _ := rfl
  ⟨_, h, Reachable.empty.replay h, cdp_store_consistent (Reachable.empty.replay h)⟩

set_option exponentiation.threshold 4200 in
theorem checkGlobalCollateralCeilingReached_iff_calls :
    ∃ s, replay sampleCalls CCdpDBCache.empty = some s ∧ Reachable s ∧
      (checkGlobalCollateralCeilingReached 100000000 10 0 s = true ↔
        (0 : UInt64).toNat * (100000000 : UInt64).toNat % 2 ^ 64 <
          ((10 : UInt64).toNat + liveSum (·.totalStakedBcoins) s.cdpCache) % 2 ^ 64) :=
  have h : replay sampleCalls CCdpDBCache.empty = some _ := rfl
  ⟨_, h, Reachable.empty.replay h,
    checkGlobalCollateralCeilingReached_iff (Reachable.empty.replay h) _ _ _⟩

def unownedCalls : List (CdpCall (Fin 2) (Fin 2)) := [.new ⟨0, 0, 5, 0, two⟩]

set_option exponentiation.threshold 4200 in
theorem checkGlobalCollateralRatioFloorReached_of_owed_calls :
    ∃ s, replay unownedCalls CCdpDBCache.empty = some s ∧ Reachable s ∧
      liveSum (·.totalOwedScoins) s.cdpCache % 2 ^ 64 = 0 ∧
      checkGlobalCollateralRatioFloorReached 100000000 18446744073709551615 s = some false :=
  have h : replay unownedCalls CCdpDBCache.empty = some _ := rfl
  have hr := Reachable.empty.replay h
  ⟨_, h, hr, by decide, checkGlobalCollateralRatioFloorReached_of_owed hr (by decide) _ _⟩

end WaykiChain.Persistence.CdpDb
