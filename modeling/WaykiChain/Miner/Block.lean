import Mathlib
import WaykiChain.Persistence.CacheWrapper
import WaykiChain.Miner.Shuffle

/-! # Blocks, transactions and the node's collaborators

The miner and the verifier see a transaction only through `CBaseTx`'s virtual methods: `CheckTx`,
`ExecuteTx`, the run-step count and `GetFuel` are arbitrary functions of the transaction, its
execution context and the state it reads. `ExecuteTx` reports the writes it made through its
cache, also when it returns `false` or throws midway. Hashes, keys and signatures are opaque
values; the signer, the block store, the merkle tree and the chain parameters are collaborators.
-/

namespace WaykiChain.Miner.Block
open Persistence.CacheWrapper Shuffle

/-- `CTxExecuteContext(height, index, fuelRate, blockTime, cw, state)` without its pointers. -/
structure CTxExecuteContext where
  height : Nat
  index : Nat
  fuelRate : Nat
  blockTime : Nat
deriving DecidableEq

/-- `CheckTx` passes, returns `false`, or throws. -/
inductive CheckOutcome
  | pass
  | reject
  | throw
deriving DecidableEq

/-- How `ExecuteTx` ends, with the writes made before: success with the `nRunStep` it counted,
`false`, or an exception. -/
inductive ExecOutcome (K V : Type)
  | ok (writes : List (Write K V)) (nRunStep : UInt64)
  | reject (writes : List (Write K V))
  | throw (writes : List (Write K V))

abbrev TokenSymbol := String

def WICC : TokenSymbol := "WICC"

def WUSD : TokenSymbol := "WUSD"

/-- The virtual methods of `CBaseTx` the pipeline calls. `fillMedianPricePoints` is the median
transaction's `SetMedianPricePoints` from the slide window and the price points a state holds at a
height, followed by `ComputeSignatureHash(true)`; `priceMedianTx` is the constructor
`CBlockPriceMedianTx(height)`, whose transactions are price-median ones. -/
structure TxContract (Tx K V : Type) where
  getHash : Tx → Nat
  getSerializeSize : Tx → Nat
  getFees : Tx → TokenSymbol × UInt64
  isBlockRewardTx : Tx → Bool
  isPriceMedianTx : Tx → Bool
  priceMedianTx : Nat → Tx
  isPriceMedianTx_priceMedianTx : ∀ height, isPriceMedianTx (priceMedianTx height) = true
  fillMedianPricePoints : Tx → Store K V → Nat → Tx
  checkTx : Tx → CTxExecuteContext → Store K V → CheckOutcome
  executeTx : Tx → CTxExecuteContext → Store K V → ExecOutcome K V
  getFuel : Tx → UInt64 → Nat → Nat → UInt64

/-- `reward_fees` of `CBlockRewardTx` (one WICC amount) or of `CUCoinBlockRewardTx` (per symbol). -/
inductive RewardFees
  | single (rewardFees : UInt64)
  | perSymbol (rewardFees : TokenSymbol → UInt64)

/-- `vptx[0]`; `txUid` is null until `CreateBlockRewardTx` stamps it. -/
structure RewardTx where
  txUid : Option Nat
  validHeight : Nat
  nVersion : Int
  rewardFees : RewardFees
  inflatedBcoins : UInt64

structure CBlock (Tx : Type) where
  prevBlockHash : Nat
  merkleRootHash : Nat
  nTime : Nat
  nNonce : Nat
  height : Nat
  nFuel : UInt64
  nFuelRate : Nat
  signature : List Nat
  rewardTx : RewardTx
  vptx : List Tx

structure CAccount where
  regid : Nat
  keyid : Nat
  ownerPubkey : Nat
  minerPubkey : Option Nat
deriving DecidableEq

/-- The node around the pipeline: chain parameters, the reads of a committed state, the hash chain
of `ShuffleDelegates`, the merkle tree, the block signature hash and the signer. -/
structure NodeEnv (Tx K V : Type) where
  totalDelegateNum : Nat
  blockInterval : Nat → Nat
  blockMaxNonce : Nat
  genesisBlockHash : Nat
  maxSignatureSize : Nat
  initTxVersion : Int
  maxBlockRunStep : UInt64
  maxBlockSize : Nat
  hasher : Nat → Nat → Digest
  getTopDelegateList : Store K V → Option (List Nat)
  getAccount : Store K V → Nat → Option CAccount
  haveTx : Store K V → Nat → Bool
  buildMerkleTree : RewardTx → List Tx → Nat
  computeSignatureHash : CBlock Tx → Nat
  verifySignature : Nat → List Nat → Nat → Bool
  sign : Nat → Bool → Nat → Option (List Nat)
  computeBlockInflateInterest : CAccount → Nat → UInt64

/-- A node with one delegate slot, whose ranking is the regid stored under key `0` (`1` when
there is none), where every regid is its own account without a miner key, and whose signer and
signature checks succeed. The concrete runs of the pipeline are built on it. -/
def oneDelegateNode (Tx : Type) : NodeEnv Tx Nat Nat where
  totalDelegateNum := 1
  blockInterval _ := 10
  blockMaxNonce := 100
  genesisBlockHash := 0
  maxSignatureSize := 72
  initTxVersion := 1
  maxBlockRunStep := 1000
  maxBlockSize := 4000000
  hasher _ _ _ := 0
  getTopDelegateList s := some [(s 0).getD 1]
  getAccount _ regid := some ⟨regid, regid, regid, none⟩
  haveTx _ _ := false
  buildMerkleTree _ _ := 0
  computeSignatureHash _ := 0
  verifySignature _ _ _ := true
  sign _ _ _ := some [1]
  computeBlockInflateInterest _ _ := 0

/-- A contract whose transaction `0` runs one step and any other `2^64 - 1` steps, each without a
write and at `2^32` fuel, paid by as much in WICC fees; `2` is its price-median transaction. -/
def wrapContract : TxContract Nat Nat Nat where
  getHash tx := tx
  getSerializeSize _ := 100
  getFees _ := (WICC, 0x100000000)
  isBlockRewardTx _ := false
  isPriceMedianTx tx := tx == 2
  priceMedianTx _ := 2
  isPriceMedianTx_priceMedianTx _ := rfl
  fillMedianPricePoints tx _ _ := tx
  checkTx _ _ _ := .pass
  executeTx tx _ _ := .ok [] (if tx = 0 then 1 else 0xFFFFFFFFFFFFFFFF)
  getFuel _ _ _ _ := 0x100000000

end WaykiChain.Miner.Block
