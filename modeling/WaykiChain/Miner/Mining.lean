import Mathlib
import WaykiChain.Miner.Assembler
import WaykiChain.Miner.Verifier

/-! # Mining a block

`CoinMiner` assembles a block over a scratch cache of the committed state and clears the scratch
delegate cache. `MineBlock` then waits for the next slot, takes the slot's delegate from the
committed ranking and its account from the scratch cache, and `CreateBlockRewardTx` stamps the
reward transaction, draws the nonce, fixes the merkle root, stamps the block with the current time
and signs it. The block's transactions were executed with the time read before the wait.
-/

namespace WaykiChain.Miner.Mining
open Persistence.CacheWrapper Block Assembler Verifier

variable {Tx K V : Type} [DecidableEq K]

/-- The body of `CreateBlockRewardTx` between the slot test and the signature: the reward
transaction's `txUid`, `valid_height` and, for a `CUCoinBlockRewardTx`, `inflated_bcoins`; then the
nonce, the merkle root and the time. -/
def stampBlock (env : NodeEnv Tx K V) (currentTime : Nat) (delegate : CAccount) (nonce : Nat)
    (pBlock : CBlock Tx) : CBlock Tx :=
  let rewardTx : RewardTx :=
    { pBlock.rewardTx with
      txUid := some delegate.regid
      validHeight := pBlock.height
      inflatedBcoins := match pBlock.rewardTx.rewardFees with
        | .single _ => pBlock.rewardTx.inflatedBcoins
        | .perSymbol _ => env.computeBlockInflateInterest delegate pBlock.height }
  { pBlock with
    rewardTx
    nNonce := nonce
    merkleRootHash := env.buildMerkleTree rewardTx pBlock.vptx
    nTime := currentTime }

/-- `CreateBlockRewardTx(currentTime, delegate, accountCache, pBlock)`; `nonce` is
`GetRand(SysCfg().GetBlockMaxNonce())`. -/
def createBlockRewardTx (env : NodeEnv Tx K V) (currentTime : Nat) (delegate : CAccount)
    (accountCache : Store K V) (previousBlock : Option (CBlock Tx)) (nonce : Nat)
    (pBlock : CBlock Tx) : Except BlockError (CBlock Tx) := do
  checkPreviousDelegate env accountCache pBlock.height pBlock.prevBlockHash currentTime
    previousBlock delegate
  let pBlock := stampBlock env currentTime delegate nonce pBlock
  let signature ← orFail (env.sign delegate.keyid delegate.minerPubkey.isSome
    (env.computeSignatureHash pBlock)) .signFailed
  pure { pBlock with signature }

/-- The pass of `MineBlock`'s loop that runs once the slot has come, at `currentTime`: the ranking
is read from the committed state, since the scratch delegate cache was cleared, and the miner's
account from the scratch cache `cw`. -/
def mineBlock (env : NodeEnv Tx K V) (committed cw : Store K V) (currentTime nonce : Nat)
    (previousBlock : Option (CBlock Tx)) (pBlock : CBlock Tx) : Except BlockError (CBlock Tx) := do
  let minerAcct ← currentDelegate env committed cw pBlock.height currentTime
  createBlockRewardTx env currentTime minerAcct cw previousBlock nonce pBlock

/-- One round of `CoinMiner` below the stable-coin genesis height: assemble over a scratch cache
of the committed state `S` with the release `GetFeatureForkVersion` selects, then mine. -/
def coinMiner (env : NodeEnv Tx K V) (c : TxContract Tx K V) (isMajorVerR1 : Bool)
    (a : AssemblyInput Tx) (S : Store K V) (currentTime nonce : Nat)
    (previousBlock : Option (CBlock Tx)) : Except BlockError (CBlock Tx) := do
  let (pBlock, st) ← orFail (if isMajorVerR1 then createNewBlockPreStableCoinRelease env c a S
    else createNewBlockStableCoinRelease env c a S) .assertFailed
  mineBlock env S st.cw currentTime nonce previousBlock pBlock

/-- A contract whose transactions succeed only in a block of time `101`; `0` is its price-median
transaction. -/
def timedContract : TxContract Nat Nat Nat where
  getHash tx := tx
  getSerializeSize _ := 100
  getFees _ := (WICC, 0)
  isBlockRewardTx _ := false
  isPriceMedianTx tx := tx == 0
  priceMedianTx _ := 0
  isPriceMedianTx_priceMedianTx _ := rfl
  fillMedianPricePoints tx _ _ := tx
  checkTx _ _ _ := .pass
  executeTx _ context _ := if context.blockTime = 101 then .ok [] 1 else .reject []
  getFuel _ _ _ _ := 0

/-- Assembled at time `101` and mined at `110`, the first block after genesis carries a
transaction that succeeded at `101`; the verifier re-executes it at the header's `110` and
refuses the block. -/
theorem coinMiner_block_refused :
    ∃ pBlock, coinMiner (oneDelegateNode Nat) timedContract true
        ⟨0, 0, 101, 101, 1, 100, 1000, fun _ => false, [5], 0⟩ (fun _ => none) 110 0 none =
          .ok pBlock ∧
      timedContract.executeTx 5 ⟨1, 1, 1, 101⟩ (fun _ => none) = .ok [] 1 ∧
      pBlock.vptx = [5] ∧ pBlock.nTime = 110 ∧
      verifyRewardTx (oneDelegateNode Nat) timedContract pBlock (fun _ => none) none true =
        .error .executeFailed :=
  ⟨_, rfl, rfl, rfl, rfl, rfl⟩

/-! ## The round trip

Where the assembler and the verifier agree: the verifier re-executes `vptx[1..]` from the committed
state with the header's height, fuel rate and time, which are the assembly context once the block
is mined at the time it was assembled at; the run-step guard of the assembler is the stronger one;
and the two fuel totals agree while every fuel fits `uint32`.
-/

omit [DecidableEq K] in
theorem currentDelegate_congr {env : NodeEnv Tx K V} {rankings a₁ a₂ : Store K V}
    (h : env.getAccount a₁ = env.getAccount a₂) (height time : Nat) :
    currentDelegate env rankings a₁ height time = currentDelegate env rankings a₂ height time := by
  simp only [currentDelegate, h]

omit [DecidableEq K] in
theorem checkPreviousDelegate_congr {env : NodeEnv Tx K V} {a₁ a₂ : Store K V}
    (h : env.getAccount a₁ = env.getAccount a₂) (height prevBlockHash time : Nat)
    (previousBlock : Option (CBlock Tx)) (delegate : CAccount) :
    checkPreviousDelegate env a₁ height prevBlockHash time previousBlock delegate =
      checkPreviousDelegate env a₂ height prevBlockHash time previousBlock delegate := by
  simp only [checkPreviousDelegate, h]

omit [DecidableEq K] in
theorem createBlockRewardTx_ok {env : NodeEnv Tx K V} {currentTime nonce : Nat}
    {delegate : CAccount} {accountCache : Store K V} {previousBlock : Option (CBlock Tx)}
    {pBlock B : CBlock Tx}
    (h : createBlockRewardTx env currentTime delegate accountCache previousBlock nonce pBlock =
      .ok B) :
    checkPreviousDelegate env accountCache pBlock.height pBlock.prevBlockHash currentTime
        previousBlock delegate = .ok () ∧
      ∃ signature, env.sign delegate.keyid delegate.minerPubkey.isSome
          (env.computeSignatureHash (stampBlock env currentTime delegate nonce pBlock)) =
            some signature ∧
        B = { stampBlock env currentTime delegate nonce pBlock with signature } := by
  simp only [createBlockRewardTx, bind_eq_ok, orFail_eq_ok, pure, Except.pure, Except.ok.injEq] at h
  obtain ⟨⟨⟩, hprev, signature, hsig, rfl⟩ := h
  exact ⟨hprev, signature, hsig, rfl⟩

/-- What the round trip needs of the collaborators: `ExecuteTx` writes nothing the tx cache reads,
which gains a block's transactions only when the block is connected; an account is stored under
its own regid; the signature hash does not cover the signature; and what the wallet signs for an
account verifies under the account's owner or miner key and fits `MAX_SIGNATURE_SIZE`. -/
structure Coherent (env : NodeEnv Tx K V) (c : TxContract Tx K V) : Prop where
  executeTx_haveTx : ∀ tx context s writes nRunStep,
    c.executeTx tx context s = .ok writes nRunStep → env.haveTx (s.applyAll writes) = env.haveTx s
  getAccount_regid : ∀ s regid acct, env.getAccount s regid = some acct → acct.regid = regid
  signatureHash_unsigned : ∀ (b : CBlock Tx) signature,
    env.computeSignatureHash { b with signature } = env.computeSignatureHash b
  sign_verifies : ∀ (acct : CAccount) hash signature,
    env.sign acct.keyid acct.minerPubkey.isSome hash = some signature →
      0 < signature.length ∧ signature.length ≤ env.maxSignatureSize ∧
      (env.verifySignature hash signature acct.ownerPubkey = true ∨
        acct.minerPubkey.any (env.verifySignature hash signature) = true)

section RoundTrip

variable {env : NodeEnv Tx K V} {c : TxContract Tx K V}

theorem Coherent.currentDelegate_self (hcoh : Coherent env c) {rankings accounts : Store K V}
    {height time : Nat} {acct : CAccount}
    (h : currentDelegate env rankings accounts height time = .ok acct) :
    env.getAccount accounts acct.regid = some acct := by
  simp only [currentDelegate, bind_eq_ok, orFail_eq_ok] at h
  obtain ⟨_, -, _, -, regId, -, h⟩ := h
  rwa [hcoh.getAccount_regid _ _ _ h]

/-- A block `MineBlock` signed, from a cache reading the committed accounts, at a nonce within
bounds and with its reward transaction at `INIT_TX_VERSION`, passes every check of the verifier
but the re-execution: it is accepted exactly when its transactions re-execute from the committed
state, with the header's context, to the fuel the header claims. -/
theorem Coherent.verifyRewardTx_mined_iff (hcoh : Coherent env c) {S cw : Store K V}
    {currentTime nonce : Nat} {previousBlock : Option (CBlock Tx)} {pBlock B : CBlock Tx}
    (hM : mineBlock env S cw currentTime nonce previousBlock pBlock = .ok B)
    (hnonce : nonce ≤ env.blockMaxNonce) (hacct : env.getAccount cw = env.getAccount S)
    (hver : pBlock.rewardTx.nVersion = env.initTxVersion) :
    verifyRewardTx env c B S previousBlock true = .ok () ↔
      runBlockTxs env c B S 1 0 0 B.vptx = .ok B.nFuel := by
  obtain ⟨minerAcct, hcur, hcreate⟩ := bind_eq_ok.1 hM
  obtain ⟨hprev, signature, hsig, rfl⟩ := createBlockRewardTx_ok hcreate
  rw [currentDelegate_congr hacct] at hcur
  rw [checkPreviousDelegate_congr hacct] at hprev
  constructor
  · intro h
    simp only [verifyRewardTx, bind_eq_ok, ensure_eq_ok] at h
    obtain ⟨_, -, _, -, _, -, _, -, _, -, _, -, hrun⟩ := h
    obtain ⟨totalFuel, hr, hfe⟩ := bind_eq_ok.1 hrun
    rwa [← ensure_eq_ok.1 hfe]
  · intro hrun
    have hproducer : checkProducer env S { stampBlock env currentTime minerAcct nonce pBlock with
        signature } minerAcct = .ok () := by
      obtain ⟨hlen₀, hlen, hv⟩ := hcoh.sign_verifies _ _ _ hsig
      simp only [checkProducer, bind_eq_ok, orFail_eq_ok, ensure_eq_ok, hcoh.signatureHash_unsigned]
      exact ⟨minerAcct, hcoh.currentDelegate_self hcur, (), rfl, (), ⟨hlen₀, hlen⟩, hv⟩
    simp only [verifyRewardTx, bind_eq_ok, ensure_eq_ok]
    exact ⟨minerAcct, hcur, (), hnonce, (), rfl, (), hprev, (), hproducer, (), hver,
      bind_eq_ok.2 ⟨_, hrun, ensure_eq_ok.2 rfl⟩⟩

end RoundTrip

theorem oneDelegateNode_coherent (c : TxContract Tx Nat Nat) : Coherent (oneDelegateNode Tx) c where
  executeTx_haveTx _ _ _ _ _ _ := rfl
  getAccount_regid _ _ _ h := by cases h; rfl
  signatureHash_unsigned _ _ := rfl
  sign_verifies _ _ _ h := by cases h; exact ⟨Nat.one_pos, show 1 ≤ 72 by decide, .inl rfl⟩

theorem verifyRewardTx_mined_iff_genesis :
    ∃ B, mineBlock (oneDelegateNode Nat) (fun _ => none) (fun _ => none) 110 0 none
        (createStableCoinGenesisBlock (oneDelegateNode Nat)
          ⟨0, 0, 101, 101, 1, 100, 1000, fun _ => false, [], 0⟩ [5]) = .ok B ∧
      (verifyRewardTx (oneDelegateNode Nat) timedContract B (fun _ => none) none true = .ok () ↔
        runBlockTxs (oneDelegateNode Nat) timedContract B (fun _ => none) 1 0 0 B.vptx =
          .ok B.nFuel) :=
  have hM : mineBlock (oneDelegateNode Nat) (fun _ => none) (fun _ => none) 110 0 none
      (createStableCoinGenesisBlock (oneDelegateNode Nat)
        ⟨0, 0, 101, 101, 1, 100, 1000, fun _ => false, [], 0⟩ [5]) = .ok _ := rfl
  ⟨_, hM, (oneDelegateNode_coherent timedContract).verifyRewardTx_mined_iff hM (by decide) rfl rfl⟩

/-! ## What the verifier's totals guarantee -/

section VerifierTotals

variable {env : NodeEnv Tx K V} {c : TxContract Tx K V} {block : CBlock Tx}

theorem runBlockTxs_cons_ok {s : Store K V} {i : Nat} {R F F' : UInt64} {tx : Tx} {txs : List Tx}
    (h : runBlockTxs env c block s i R F (tx :: txs) = .ok F') :
    ∃ writes nRunStep,
      c.executeTx tx ⟨block.height, i, block.nFuelRate, block.nTime⟩ s = .ok writes nRunStep ∧
      ¬(R + nRunStep > env.maxBlockRunStep) ∧
      runBlockTxs env c block (s.applyAll writes) (i + 1) (R + nRunStep)
        (F + (c.getFuel tx nRunStep block.height block.nFuelRate).toUInt32.toUInt64) txs =
          .ok F' := by
  simp only [runBlockTxs] at h
  split_ifs at h
  split at h
  · cases h
  · cases h
  rename_i writes nRunStep hx
  split_ifs at h with hguard
  exact ⟨writes, nRunStep, hx, hguard, h⟩

theorem runBlockTxs_totals :
    ∀ (txs : List Tx) (s : Store K V) (i : Nat) (R F F' : UInt64),
      R.toNat ≤ env.maxBlockRunStep.toNat → runBlockTxs env c block s i R F txs = .ok F' →
      ∃ steps fuel, execTotals c block.height block.nFuelRate block.nTime s i txs =
          some (steps, fuel) ∧
        (FuelsFit c block.height block.nFuelRate block.nTime s i txs →
          F'.toNat = (F.toNat + fuel) % 2 ^ 64) ∧
        (R.toNat + steps < 2 ^ 64 → R.toNat + steps ≤ env.maxBlockRunStep.toNat)
  | [], _, _, _, F, _, hR, h => by
    cases h
    exact ⟨0, 0, rfl, fun _ => (Nat.mod_eq_of_lt F.toNat_lt).symm, fun _ => hR⟩
  | tx :: txs, s, i, R, F, F', _, h => by
    obtain ⟨writes, n, hx, hguard, hrest⟩ := runBlockTxs_cons_ok h
    have hle : (R + n).toNat ≤ env.maxBlockRunStep.toNat := UInt64.not_lt.1 hguard
    obtain ⟨steps, fuel, he, hF, hS⟩ := runBlockTxs_totals txs _ _ _ _ _ hle hrest
    refine ⟨n.toNat + steps, (c.getFuel tx n block.height block.nFuelRate).toNat + fuel,
      by simp only [execTotals, hx, he, Option.map_some'], fun hfit => ?_, fun hlt => ?_⟩
    · simp only [FuelsFit, hx] at hfit
      rw [hF hfit.2, UInt64.toNat_add, UInt32.toUInt64_toNat, UInt64.toUInt32_toNat,
        Nat.mod_eq_of_lt hfit.1, UInt64.size]
      omega
    · have hnw : (R + n).toNat = R.toNat + n.toNat := by
        rw [UInt64.toNat_add]; exact Nat.mod_eq_of_lt (by unfold UInt64.size; omega)
      have := hS (by omega)
      omega

/-- What acceptance guarantees: `vptx[1..]` runs to the end from `cwIn` with the header's context;
when each fuel fits `uint32` at the run steps its execution reports, the header fuel is the exact
fuel sum modulo `2^64`; and an exact step sum below `2^64` is at most `MAX_BLOCK_RUN_STEP`. -/
theorem verifyRewardTx_totals {cwIn : Store K V} {previousBlock : Option (CBlock Tx)}
    (h : verifyRewardTx env c block cwIn previousBlock true = .ok ()) :
    ∃ steps fuel, execTotals c block.height block.nFuelRate block.nTime cwIn 1 block.vptx =
        some (steps, fuel) ∧
      (FuelsFit c block.height block.nFuelRate block.nTime cwIn 1 block.vptx →
        block.nFuel.toNat = fuel % 2 ^ 64) ∧
      (steps < 2 ^ 64 → steps ≤ env.maxBlockRunStep.toNat) := by
  simp only [verifyRewardTx, bind_eq_ok, ensure_eq_ok] at h
  obtain ⟨_, -, _, -, _, -, _, -, _, -, _, -, hrun⟩ := h
  obtain ⟨totalFuel, hr, hfe⟩ := bind_eq_ok.1 hrun
  obtain ⟨steps, fuel, he, hF, hS⟩ := runBlockTxs_totals _ _ _ _ _ _ (Nat.zero_le _) hr
  refine ⟨steps, fuel, he, fun hfit => ?_, fun hlt => by simpa using hS (by simpa using hlt)⟩
  rw [← ensure_eq_ok.1 hfe, hF hfit]
  simp

end VerifierTotals

theorem verifyRewardTx_totals_on_time :
    verifyRewardTx (oneDelegateNode Nat) timedContract (producedBlock 1 101 1 0 [5]) (fun _ => none)
        none true = .ok () ∧
      ∃ steps fuel, execTotals timedContract 1 1 101 (fun _ => none) 1 [5] = some (steps, fuel) ∧
        (FuelsFit timedContract 1 1 101 (fun _ => none) 1 [5] →
          (0 : UInt64).toNat = fuel % 2 ^ 64) ∧
        (steps < 2 ^ 64 → steps ≤ (oneDelegateNode Nat).maxBlockRunStep.toNat) :=
  have h : verifyRewardTx (oneDelegateNode Nat) timedContract (producedBlock 1 101 1 0 [5])
      (fun _ => none) none true = .ok () := rfl
  ⟨h, verifyRewardTx_totals h⟩

end WaykiChain.Miner.Mining
