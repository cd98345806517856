import Mathlib
import WaykiChain.Miner.Block

/-! # The block assembler

`CreateNewBlockPreStableCoinRelease` and `CreateNewBlockStableCoinRelease` share one packing loop
over the priority set `GetPriorityTx` fills, read from its end. Each candidate runs in a scratch
cache over `cwIn`, which is flushed only after `CheckTx`, `ExecuteTx` and the run-step guard have
passed. The stable-coin release also emplaces a price-median transaction in the set, stops at the
slot budget, fills the price points of the price-median transactions, and keeps one reward per
fee symbol. `CreateStableCoinGenesisBlock` packs nothing:
its block carries the fund-coin reward transactions, which no one executes before the block is
mined.

The order of the priority set is not modelled: its comparator is not a strict weak order, so the
order `std::set` gives is an input. The wall clock is an oracle, `slotBudgetSpent k` being
`costTime >= GetBlockInterval(height) - 1` at the `k`-th candidate.
-/

namespace WaykiChain.Miner.Assembler
open Persistence.CacheWrapper Block

structure Release where
  emplacesPriceMedianTx : Bool
  stopsAtSlotBudget : Bool
  fillsMedianPoints : Bool
  feeSymbols : List TokenSymbol

def preStableCoinRelease : Release := ⟨false, false, false, [WICC]⟩

def stableCoinRelease : Release := ⟨true, true, true, [WICC, WUSD]⟩

structure PackCtx where
  height : Nat
  fuelRate : Nat
  blockTime : Nat
  nBlockMaxSize : UInt64
  maxBlockRunStep : UInt64
  slotBudgetSpent : Nat → Bool

/-- The loop's variables: `cwIn`, the packed `vptx[1..]`, `index`, the uint64 totals, the rewards
per fee symbol (the pre-release `reward` is the WICC entry), and the `SetExecuteFail` records the
loop writes to the global log cache. -/
structure PackState (Tx K V : Type) where
  cw : Store K V
  vptx : List Tx
  index : Nat
  totalBlockSize : UInt64
  totalRunStep : UInt64
  totalFees : UInt64
  totalFuel : UInt64
  rewards : TokenSymbol → UInt64
  executeFailLog : List (Nat × Nat)

variable {Tx K V : Type} [DecidableEq K]

def PackState.init (cwIn : Store K V) (blockSize : UInt64) : PackState Tx K V :=
  ⟨cwIn, [], 0, blockSize, 0, 0, 0, fun _ => 0, []⟩

def PackState.logFail (st : PackState Tx K V) (height txid : Nat) : PackState Tx K V :=
  { st with executeFailLog := st.executeFailLog ++ [(height, txid)] }

def PackState.commit (r : Release) (c : TxContract Tx K V) (e : PackCtx) (st : PackState Tx K V)
    (spCW : CCacheWrapper K V) (tx : Tx) (nRunStep txSize : UInt64) : Option (PackState Tx K V) :=
  let fuel := c.getFuel tx nRunStep e.height e.fuelRate
  let feesSymbol := (c.getFees tx).1
  let fees := (c.getFees tx).2
  if feesSymbol ∈ r.feeSymbols ∧ fuel ≤ fees then
    some
      { cw := spCW.flush
        vptx := st.vptx ++ [tx]
        index := st.index + 1
        totalBlockSize := st.totalBlockSize + txSize
        totalRunStep := st.totalRunStep + nRunStep
        totalFees := st.totalFees + fees
        totalFuel := st.totalFuel + fuel
        rewards := Function.update st.rewards feesSymbol (st.rewards feesSymbol + (fees - fuel))
        executeFailLog := st.executeFailLog }
  else none

/-- `SetMedianPricePoints` and `ComputeSignatureHash(true)` on the price-median transaction in the
stable-coin release, from the price points the scratch cache holds. -/
def medianFilled (r : Release) (c : TxContract Tx K V) (view : Store K V) (height : Nat)
    (baseTx : Tx) : Tx :=
  if r.fillsMedianPoints ∧ c.isPriceMedianTx baseTx = true
  then c.fillMedianPricePoints baseTx view height else baseTx

/-- One turn of the loop body past the slot-budget test. A `continue` or a caught exception keeps
the state, and the scratch `spCW` with the writes made so far is dropped. -/
def packTx (r : Release) (c : TxContract Tx K V) (e : PackCtx) (st : PackState Tx K V)
    (baseTx : Tx) : Option (PackState Tx K V) :=
  let txSize : UInt64 := (UInt32.ofNat (c.getSerializeSize baseTx)).toUInt64
  if e.nBlockMaxSize ≤ st.totalBlockSize + txSize then some st
  else
    let spCW := CCacheWrapper.over st.cw
    let tx := medianFilled r c spCW.view e.height baseTx
    let context : CTxExecuteContext := ⟨e.height, st.index + 1, e.fuelRate, e.blockTime⟩
    match c.checkTx tx context spCW.view with
    | .throw => some st
    | .reject => some (st.logFail e.height (c.getHash tx))
    | .pass =>
      match c.executeTx tx context spCW.view with
      | .throw _ => some st
      | .reject _ => some (st.logFail e.height (c.getHash tx))
      | .ok writes nRunStep =>
        if e.maxBlockRunStep ≤ st.totalRunStep + nRunStep then some st
        else st.commit r c e (spCW.write writes) tx nRunStep txSize

/-- `for (auto itor = txPriorities.rbegin(); ...)`; `k` counts the candidates read so far. -/
def packLoop (r : Release) (c : TxContract Tx K V) (e : PackCtx) :
    Nat → List Tx → PackState Tx K V → Option (PackState Tx K V)
  | _, [], st => some st
  | k, baseTx :: rest, st =>
    if r.stopsAtSlotBudget ∧ e.slotBudgetSpent k = true then some st
    else (packTx r c e st baseTx).bind (packLoop r c e (k + 1) rest)

/-- Executing `txs` in order on one cache from index `i`, each with context
`(height, its index, fuelRate, blockTime)`: the state a block's transactions lead to. -/
def executeTxs (c : TxContract Tx K V) (height fuelRate blockTime : Nat) :
    Store K V → Nat → List Tx → Option (Store K V)
  | s, _, [] => some s
  | s, i, tx :: txs =>
    match c.executeTx tx ⟨height, i, fuelRate, blockTime⟩ s with
    | .ok writes _ => executeTxs c height fuelRate blockTime (s.applyAll writes) (i + 1) txs
    | _ => none

/-- The transactions a run of the loop packs, in order from the cache `s` at index `i`: each
executed with the assembly context and under the run-step guard, with the run-step and fuel
totals before and after. -/
inductive Packed (c : TxContract Tx K V) (e : PackCtx) :
    Store K V → Nat → UInt64 → UInt64 → List Tx → Store K V → UInt64 → UInt64 → Prop
  | nil (s : Store K V) (i : Nat) (totalRunStep totalFuel : UInt64) :
      Packed c e s i totalRunStep totalFuel [] s totalRunStep totalFuel
  | cons (s : Store K V) (i : Nat) (totalRunStep totalFuel : UInt64) (tx : Tx) (txs : List Tx)
      (writes : List (Write K V)) (nRunStep : UInt64) (s' : Store K V)
      (totalRunStep' totalFuel' : UInt64) :
      c.executeTx tx ⟨e.height, i, e.fuelRate, e.blockTime⟩ s = .ok writes nRunStep →
      ¬e.maxBlockRunStep ≤ totalRunStep + nRunStep →
      Packed c e (s.applyAll writes) (i + 1) (totalRunStep + nRunStep)
        (totalFuel + c.getFuel tx nRunStep e.height e.fuelRate) txs s' totalRunStep' totalFuel' →
      Packed c e s i totalRunStep totalFuel (tx :: txs) s' totalRunStep' totalFuel'

theorem Packed.executeTxs {c : TxContract Tx K V} {e : PackCtx} {s s' : Store K V} {i : Nat}
    {R F R' F' : UInt64} {txs : List Tx} (h : Packed c e s i R F txs s' R' F') :
    executeTxs c e.height e.fuelRate e.blockTime s i txs = some s' := by
  induction h with
  | nil => rfl
  | cons _ _ _ _ _ _ _ _ _ _ _ hx _ _ ih => simp only [Assembler.executeTxs, hx, ih]

/-- The exact run-step and fuel sums of `txs` executed in order from `s` at index `i`, each fuel
taken at the run steps its execution reports. -/
def execTotals (c : TxContract Tx K V) (height fuelRate blockTime : Nat) :
    Store K V → Nat → List Tx → Option (Nat × Nat)
  | _, _, [] => some (0, 0)
  | s, i, tx :: txs =>
    match c.executeTx tx ⟨height, i, fuelRate, blockTime⟩ s with
    | .ok writes nRunStep =>
      (execTotals c height fuelRate blockTime (s.applyAll writes) (i + 1) txs).map fun t =>
        (nRunStep.toNat + t.1, (c.getFuel tx nRunStep height fuelRate).toNat + t.2)
    | _ => none

/-- Each of `txs`, executed in order from `s` at index `i`, costs a fuel that fits `uint32` at the
run steps its execution reports. -/
def FuelsFit (c : TxContract Tx K V) (height fuelRate blockTime : Nat) :
    Store K V → Nat → List Tx → Prop
  | _, _, [] => True
  | s, i, tx :: txs =>
    match c.executeTx tx ⟨height, i, fuelRate, blockTime⟩ s with
    | .ok writes nRunStep => (c.getFuel tx nRunStep height fuelRate).toNat < 2 ^ 32 ∧
      FuelsFit c height fuelRate blockTime (s.applyAll writes) (i + 1) txs
    | _ => True

theorem Packed.totals {c : TxContract Tx K V} {e : PackCtx} {s s' : Store K V} {i : Nat}
    {R F R' F' : UInt64} {txs : List Tx} (h : Packed c e s i R F txs s' R' F') :
    ∃ steps fuel, execTotals c e.height e.fuelRate e.blockTime s i txs = some (steps, fuel) ∧
      R'.toNat = (R.toNat + steps) % 2 ^ 64 ∧ F'.toNat = (F.toNat + fuel) % 2 ^ 64 := by
  induction h with
  | nil _ _ R F =>
    exact ⟨0, 0, rfl, (Nat.mod_eq_of_lt R.toNat_lt).symm, (Nat.mod_eq_of_lt F.toNat_lt).symm⟩
  | cons _ _ R F tx _ _ n _ _ _ hx _ _ ih =>
    obtain ⟨steps, fuel, he, hR, hF⟩ := ih
    refine ⟨n.toNat + steps, (c.getFuel tx n e.height e.fuelRate).toNat + fuel,
      by simp only [execTotals, hx, he, Option.map_some'], ?_, ?_⟩
    · rw [hR, UInt64.toNat_add, UInt64.size]; omega
    · rw [hF, UInt64.toNat_add, UInt64.size]; omega

theorem Packed.totalRunStep_lt {c : TxContract Tx K V} {e : PackCtx} {s s' : Store K V} {i : Nat}
    {R F R' F' : UInt64} {txs : List Tx} (h : Packed c e s i R F txs s' R' F') (hne : txs ≠ []) :
    R' < e.maxBlockRunStep := by
  induction h with
  | nil => exact absurd rfl hne
  | cons _ _ _ _ _ txs _ _ _ _ _ _ hguard hp ih =>
    cases hp with
    | nil => exact UInt64.not_le.1 hguard
    | cons => exact ih (List.cons_ne_nil _ _)

theorem PackState.commit_eq_some {r : Release} {c : TxContract Tx K V} {e : PackCtx}
    {st st' : PackState Tx K V} {spCW : CCacheWrapper K V} {tx : Tx} {nRunStep txSize : UInt64}
    (h : st.commit r c e spCW tx nRunStep txSize = some st') :
    st'.cw = spCW.flush ∧ st'.vptx = st.vptx ++ [tx] ∧ st'.index = st.index + 1 ∧
      st'.totalRunStep = st.totalRunStep + nRunStep ∧
      st'.totalFuel = st.totalFuel + c.getFuel tx nRunStep e.height e.fuelRate := by
  dsimp only [PackState.commit] at h
  split_ifs at h
  cases h
  exact ⟨rfl, rfl, rfl, rfl, rfl⟩

/-- Everything one turn can do: keep the state but for the failure log, or execute the candidate,
with its median points filled, at the next index on `cwIn`, pass the run-step guard and commit. -/
theorem packTx_cases {r : Release} {c : TxContract Tx K V} {e : PackCtx} {st st' : PackState Tx K V}
    {baseTx : Tx} (h : packTx r c e st baseTx = some st') :
    (∃ l, st' = { st with executeFailLog := l }) ∨
      ∃ writes nRunStep,
        c.executeTx (medianFilled r c st.cw e.height baseTx)
          ⟨e.height, st.index + 1, e.fuelRate, e.blockTime⟩ st.cw = .ok writes nRunStep ∧
        ¬e.maxBlockRunStep ≤ st.totalRunStep + nRunStep ∧
        st.commit r c e ((CCacheWrapper.over st.cw).write writes)
          (medianFilled r c st.cw e.height baseTx) nRunStep
          (UInt32.ofNat (c.getSerializeSize baseTx)).toUInt64 = some st' := by
  dsimp only [packTx] at h
  -- every exit but the commit returns `st` or `st.logFail _ _`
  split_ifs at h <;> try (cases h; exact .inl ⟨_, rfl⟩)
  split at h <;> try (cases h; exact .inl ⟨_, rfl⟩)
  split at h <;> try (cases h; exact .inl ⟨_, rfl⟩)
  rename_i writes nRunStep hx
  split_ifs at h with hguard
  · cases h; exact .inl ⟨_, rfl⟩
  exact .inr ⟨writes, nRunStep, hx, hguard, h⟩

/-- The loop keeps `index = #vptx`, and what it appends to `vptx` is a run of packed transactions
from the state, index and totals it started with to those it leaves. -/
theorem packLoop_packed {r : Release} {c : TxContract Tx K V} {e : PackCtx} :
    ∀ (k : Nat) (cands : List Tx) (st st' : PackState Tx K V), st.index = st.vptx.length →
      packLoop r c e k cands st = some st' →
      st'.index = st'.vptx.length ∧ ∃ txs, st'.vptx = st.vptx ++ txs ∧
        Packed c e st.cw (st.index + 1) st.totalRunStep st.totalFuel txs st'.cw st'.totalRunStep
          st'.totalFuel
  | _, [], st, st', hi, h => by
    cases h; exact ⟨hi, [], by simp, .nil _ _ _ _⟩
  | k, baseTx :: rest, st, st', hi, h => by
    simp only [packLoop] at h
    split_ifs at h
    · cases h; exact ⟨hi, [], by simp, .nil _ _ _ _⟩
    obtain ⟨st₁, h₁, h₂⟩ := Option.bind_eq_some.1 h
    rcases packTx_cases h₁ with ⟨l, rfl⟩ | ⟨writes, n, hx, hguard, hc⟩
    · exact packLoop_packed (k + 1) rest { st with executeFailLog := l } st' hi h₂
    obtain ⟨hcw, hv, hidx, hR, hF⟩ := PackState.commit_eq_some hc
    obtain ⟨hi', txs, hv', hp⟩ := packLoop_packed (k + 1) rest st₁ st' (by simp [hidx, hv, hi]) h₂
    refine ⟨hi', _ :: txs, by simp [hv', hv], .cons _ _ _ _ _ _ _ _ _ _ _ hx hguard ?_⟩
    rwa [hcw, flush_over_write, hidx, hR, hF] at hp

/-- What `CreateNewBlock*` reads besides `cwIn`: the tip's height and hash, the clock at the two
`UpdateTime` calls, `GetElementForBurn(pIndexPrev)`, the serialized size of the block holding only
its reward transaction, `-blockmaxsize`, the clock oracle, the pool's transactions in the order
`rbegin()` walks the priority set, and how many records that walk meets before the emplaced
price-median transaction. -/
structure AssemblyInput (Tx : Type) where
  prevHeight : Nat
  prevBlockHash : Nat
  blockTime : Nat
  headerTime : Nat
  fuelRate : Nat
  initialBlockSize : UInt64
  blockmaxsize : Nat
  slotBudgetSpent : Nat → Bool
  mempool : List Tx
  priceMedianAt : Nat

/-- `GetPriorityTx`'s test on a pool transaction: it is no block reward, and the tx cache does not
hold its hash. -/
def isPriorityCandidate (env : NodeEnv Tx K V) (c : TxContract Tx K V) (txCache : Store K V)
    (tx : Tx) : Bool :=
  !c.isBlockRewardTx tx && !env.haveTx txCache (c.getHash tx)

/-- `txPriorities` as `rbegin()` walks it: the pool's transactions that `GetPriorityTx` emplaces,
and in the stable-coin release `CBlockPriceMedianTx(height)`, emplaced untested. -/
def AssemblyInput.priorityTxs (a : AssemblyInput Tx) (r : Release) (env : NodeEnv Tx K V)
    (c : TxContract Tx K V) (txCache : Store K V) : List Tx :=
  let txPriorities := a.mempool.filter (isPriorityCandidate env c txCache)
  if r.emplacesPriceMedianTx then
    txPriorities.take a.priceMedianAt ++
      c.priceMedianTx (a.prevHeight + 1) :: txPriorities.drop a.priceMedianAt
  else txPriorities

/-- `std::max<uint32_t>(1000, std::min<uint32_t>((MAX_BLOCK_SIZE - 1000), nBlockMaxSize))` on the
`uint32` value of `-blockmaxsize`. -/
def nBlockMaxSize (MAX_BLOCK_SIZE blockmaxsize : Nat) : UInt64 :=
  UInt64.ofNat (max 1000 (min ((MAX_BLOCK_SIZE - 1000) % 2 ^ 32) (blockmaxsize % 2 ^ 32)))

def AssemblyInput.packCtx (a : AssemblyInput Tx) (env : NodeEnv Tx K V) : PackCtx :=
  ⟨a.prevHeight + 1, a.fuelRate, a.blockTime, nBlockMaxSize env.maxBlockSize a.blockmaxsize,
    env.maxBlockRunStep, a.slotBudgetSpent⟩

/-- The block once the loop is done: `reward_fees`, then `SetPrevBlockHash`, `SetNonce(0)`,
`SetHeight`, `SetFuel(totalFuel)`, `SetFuelRate` and the second `UpdateTime`. The reward
transaction is as constructed, at `INIT_TX_VERSION` and without `txUid`. -/
def assembledBlock (env : NodeEnv Tx K V) (a : AssemblyInput Tx) (rewardFees : RewardFees)
    (st : PackState Tx K V) : CBlock Tx where
  prevBlockHash := a.prevBlockHash
  merkleRootHash := 0
  nTime := a.headerTime
  nNonce := 0
  height := a.prevHeight + 1
  nFuel := st.totalFuel
  nFuelRate := a.fuelRate
  signature := []
  rewardTx := ⟨none, 0, env.initTxVersion, rewardFees, 0⟩
  vptx := st.vptx

/-- `CreateNewBlockPreStableCoinRelease(cwIn)`: the block, and the loop's last state, which holds
`nLastBlockTx - 1` and what `cwIn` is left with; `none` is a failed `assert`. `GetPriorityTx`
reads the tx cache of `pCdMan`, which `cwIn`, the cache `CoinMiner` builds over it, reads. -/
def createNewBlockPreStableCoinRelease (env : NodeEnv Tx K V) (c : TxContract Tx K V)
    (a : AssemblyInput Tx) (cwIn : Store K V) : Option (CBlock Tx × PackState Tx K V) :=
  (packLoop preStableCoinRelease c (a.packCtx env) 0
      (a.priorityTxs preStableCoinRelease env c cwIn) (.init cwIn a.initialBlockSize)).map
    fun st => (assembledBlock env a (.single (st.rewards WICC)) st, st)

def createNewBlockStableCoinRelease (env : NodeEnv Tx K V) (c : TxContract Tx K V)
    (a : AssemblyInput Tx) (cwIn : Store K V) : Option (CBlock Tx × PackState Tx K V) :=
  (packLoop stableCoinRelease c (a.packCtx env) 0
      (a.priorityTxs stableCoinRelease env c cwIn) (.init cwIn a.initialBlockSize)).map
    fun st => (assembledBlock env a (.perSymbol st.rewards) st, st)

/-- `CreateStableCoinGenesisBlock()`: a `CBlockRewardTx` as constructed, the fund-coin reward
transactions `SysCfg().CreateFundCoinRewardTx` appends, and the header: the tip's hash, the time
`UpdateTime` sets, nonce `0`, the next height, fuel `0` and `GetElementForBurn(pIndexPrev)`. Of
the assembly input only the tip, the header time and the fuel rate are read. -/
def createStableCoinGenesisBlock (env : NodeEnv Tx K V) (a : AssemblyInput Tx)
    (fundCoinRewardTxs : List Tx) : CBlock Tx where
  prevBlockHash := a.prevBlockHash
  merkleRootHash := 0
  nTime := a.headerTime
  nNonce := 0
  height := a.prevHeight + 1
  nFuel := 0
  nFuelRate := a.fuelRate
  signature := []
  rewardTx := ⟨none, 0, env.initTxVersion, .single 0, 0⟩
  vptx := fundCoinRewardTxs

section Releases

variable {env : NodeEnv Tx K V} {c : TxContract Tx K V} {a : AssemblyInput Tx} {cwIn : Store K V}
  {blk : CBlock Tx} {st : PackState Tx K V}

theorem createNewBlock_loop
    (h : createNewBlockPreStableCoinRelease env c a cwIn = some (blk, st) ∨
      createNewBlockStableCoinRelease env c a cwIn = some (blk, st)) :
    ∃ r : Release, (r.emplacesPriceMedianTx = true → r.fillsMedianPoints = true) ∧
      packLoop r c (a.packCtx env) 0 (a.priorityTxs r env c cwIn)
        (.init cwIn a.initialBlockSize) = some st ∧
      ∃ rewardFees, blk = assembledBlock env a rewardFees st := by
  rcases h with h | h <;>
  · obtain ⟨st', hl, hb⟩ := Option.map_eq_some'.1 h
    cases hb
    exact ⟨_, fun h => h, hl, _, rfl⟩

theorem createNewBlock_packed
    (h : createNewBlockPreStableCoinRelease env c a cwIn = some (blk, st) ∨
      createNewBlockStableCoinRelease env c a cwIn = some (blk, st)) :
    (∃ rewardFees, blk = assembledBlock env a rewardFees st) ∧ st.index = st.vptx.length ∧
      Packed c (a.packCtx env) cwIn 1 0 0 st.vptx st.cw st.totalRunStep st.totalFuel := by
  obtain ⟨r, -, hl, hb⟩ := createNewBlock_loop h
  obtain ⟨hi, txs, htxs, hp⟩ := packLoop_packed 0 _ _ st rfl hl
  exact ⟨hb, hi, by rwa [htxs]⟩

end Releases

/-- Both releases leave `cwIn` as executing exactly the block's `vptx[1..]` in order from its
initial content does, each at its index with the assembly context; a turn that packs nothing
leaves `cwIn` as it was. -/
theorem createNewBlock_atomic (env : NodeEnv Tx K V) (c : TxContract Tx K V)
    (a : AssemblyInput Tx) (cwIn : Store K V) :
    (∀ blk st, createNewBlockPreStableCoinRelease env c a cwIn = some (blk, st) ∨
        createNewBlockStableCoinRelease env c a cwIn = some (blk, st) →
      executeTxs c (a.prevHeight + 1) a.fuelRate a.blockTime cwIn 1 blk.vptx = some st.cw) ∧
    ∀ r st st' baseTx, packTx r c (a.packCtx env) st baseTx = some st' → st'.vptx = st.vptx →
      st'.cw = st.cw := by
  refine ⟨fun blk st h => ?_, fun r st st' baseTx h hv => ?_⟩
  · obtain ⟨⟨_, rfl⟩, -, hp⟩ := createNewBlock_packed h
    exact hp.executeTxs
  · rcases packTx_cases h with ⟨l, rfl⟩ | ⟨_, _, _, _, hc⟩
    · rfl
    · simp [(PackState.commit_eq_some hc).2.1] at hv

/-- The accounting both releases keep: `nLastBlockTx = vptx.size()`, the header fuel is the sum of
`GetFuel` over `vptx[1..]` modulo `2^64`, at the run steps each execution reports, and when
something is packed the run-step sum modulo `2^64` is below `MAX_BLOCK_RUN_STEP`. -/
theorem createNewBlock_accounting {env : NodeEnv Tx K V} {c : TxContract Tx K V}
    {a : AssemblyInput Tx} {cwIn : Store K V} {blk : CBlock Tx} {st : PackState Tx K V}
    (h : createNewBlockPreStableCoinRelease env c a cwIn = some (blk, st) ∨
      createNewBlockStableCoinRelease env c a cwIn = some (blk, st)) :
    st.index + 1 = blk.vptx.length + 1 ∧
      ∃ steps fuel, execTotals c (a.prevHeight + 1) a.fuelRate a.blockTime cwIn 1 blk.vptx =
          some (steps, fuel) ∧
        blk.nFuel.toNat = fuel % 2 ^ 64 ∧
        (blk.vptx ≠ [] → steps % 2 ^ 64 < env.maxBlockRunStep.toNat) := by
  obtain ⟨⟨_, rfl⟩, hi, hp⟩ := createNewBlock_packed h
  obtain ⟨steps, fuel, he, hR, hF⟩ := hp.totals
  refine ⟨by rw [hi]; rfl, steps, fuel, he, by simpa using hF, fun hne => ?_⟩
  have hlt : st.totalRunStep.toNat < env.maxBlockRunStep.toNat := hp.totalRunStep_lt hne
  simpa [hR] using hlt

theorem createNewBlock_accounting_wrapped :
    ∃ blk st, createNewBlockPreStableCoinRelease (oneDelegateNode _) wrapContract
        ⟨0, 0, 100, 100, 1, 100, 1000, fun _ => false, [0, 1], 0⟩ (fun _ => none) = some (blk, st) ∧
      st.index + 1 = blk.vptx.length + 1 ∧
      ∃ steps fuel, execTotals wrapContract 1 1 100 (fun _ => none) 1 blk.vptx =
          some (steps, fuel) ∧
        blk.nFuel.toNat = fuel % 2 ^ 64 ∧
        (blk.vptx ≠ [] → steps % 2 ^ 64 < (oneDelegateNode Nat).maxBlockRunStep.toNat) :=
  have h : createNewBlockPreStableCoinRelease (oneDelegateNode _) wrapContract
      ⟨0, 0, 100, 100, 1, 100, 1000, fun _ => false, [0, 1], 0⟩ (fun _ => none) = some (_, _) := rfl
  ⟨_, _, h, createNewBlock_accounting (.inl h)⟩

/-- Transactions given by their serialized size and whether they are price-median transactions,
whose price points add 50 bytes, the emplaced one measuring 10 bytes before; each passes its checks
and executes with no write, no step and no fee. -/
def sizedContract : TxContract (Nat × Bool) Nat Nat where
  getHash tx := tx.1
  getSerializeSize tx := tx.1
  getFees _ := (WICC, 0)
  isBlockRewardTx _ := false
  isPriceMedianTx tx := tx.2
  priceMedianTx _ := (10, true)
  isPriceMedianTx_priceMedianTx _ := rfl
  fillMedianPricePoints tx _ _ := (tx.1 + 50, tx.2)
  checkTx _ _ _ := .pass
  executeTx _ _ _ := .ok [] 0
  getFuel _ _ _ _ := 0

/-- An 880-byte transaction and the price-median transaction, measured at 10 bytes before its
points are set, pass the size guard of a 1000-byte block that starts at 100 bytes, which then
holds 1040 bytes. Two transactions of `1` and `2^64 - 1` steps pass the run-step guard of `1000`,
whose uint64 sum wraps to `0`. -/
theorem createNewBlock_exceeds_bounds :
    (∃ blk st, createNewBlockStableCoinRelease (oneDelegateNode _) sizedContract
        ⟨0, 0, 100, 100, 1, 100, 1000, fun _ => false, [(880, false)], 1⟩ (fun _ => none) =
        some (blk, st) ∧
      nBlockMaxSize 4000000 1000 = 1000 ∧ blk.vptx = [(880, false), (60, true)] ∧
      1000 ≤ 100 + (blk.vptx.map sizedContract.getSerializeSize).sum) ∧
    (∃ blk st, createNewBlockPreStableCoinRelease (oneDelegateNode _) wrapContract
        ⟨0, 0, 100, 100, 1, 100, 1000, fun _ => false, [0, 1], 0⟩ (fun _ => none) = some (blk, st) ∧
      blk.vptx = [0, 1] ∧
      wrapContract.executeTx 0 ⟨1, 1, 1, 100⟩ (fun _ => none) = .ok [] 1 ∧
      wrapContract.executeTx 1 ⟨1, 2, 1, 100⟩ (fun _ => none) = .ok [] 0xFFFFFFFFFFFFFFFF ∧
      (oneDelegateNode Nat).maxBlockRunStep.toNat ≤ 1 + 0xFFFFFFFFFFFFFFFF) :=
  ⟨⟨_, _, rfl, rfl, rfl, by decide⟩, ⟨_, _, rfl, rfl, rfl, rfl, by decide⟩⟩

end WaykiChain.Miner.Assembler
