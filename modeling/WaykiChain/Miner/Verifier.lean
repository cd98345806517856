import Mathlib
import WaykiChain.Miner.Block

/-! # The block verifier

`VerifyRewardTx(pBlock, cwIn, bNeedRunTx)` finds the delegate of the block's slot in the shuffled
ranking of `cwIn`, checks the nonce and the merkle root, forbids a delegate to follow itself
within one interval, checks that the reward transaction's account is that delegate and signed the
header, and re-executes `vptx[1..]` on a scratch cache over `cwIn`, summing the run steps and the
fuel narrowed to `uint32`. Every `return false` is an error naming the check that failed; the
scratch cache is never flushed.
-/

namespace WaykiChain.Miner.Verifier
open Persistence.CacheWrapper Shuffle Block

/-- Why the verifier refuses a block or the miner produces none, one constructor per check; an
index past the end of the delegate list has no meaning in C++, and a failed `assert` aborts. -/
inductive BlockError
  | noTopDelegates
  | delegateIndexOutOfRange
  | noDelegateAccount
  | invalidNonce
  | wrongMerkleRoot
  | readBlockFailed
  | noPrevDelegateAccount
  | sameSlot
  | wrongDelegate
  | invalidSignatureSize
  | verifySignatureError
  | noAccountInfo
  | wrongTxVersion
  | duplicateTx
  | executeFailed
  | executeThrew
  | runStepExceeded
  | fuelMismatch
  | signFailed
  | assertFailed
deriving DecidableEq

variable {Tx K V : Type} [DecidableEq K] {α β : Type}

def orFail (o : Option α) (e : BlockError) : Except BlockError α :=
  match o with
  | some a => .ok a
  | none => .error e

def ensure (ok : Prop) [Decidable ok] (e : BlockError) : Except BlockError Unit :=
  if ok then .ok () else .error e

@[simp] theorem orFail_eq_ok {o : Option α} {e : BlockError} {a : α} :
    orFail o e = .ok a ↔ o = some a := by
  cases o <;> simp [orFail]

@[simp] theorem ensure_eq_ok {ok : Prop} [Decidable ok] {e : BlockError} {u : Unit} :
    ensure ok e = .ok u ↔ ok := by
  unfold ensure; split_ifs <;> simp [*]

theorem bind_eq_ok {x : Except BlockError α} {f : α → Except BlockError β} {b : β} :
    x >>= f = .ok b ↔ ∃ a, x = .ok a ∧ f a = .ok b := by
  cases x <;> simp [bind, Except.bind]

/-- `GetTopDelegateList`, `ShuffleDelegates` at `height`, `GetCurrentDelegate` at `time`, and the
delegate's account. The ranking and the accounts are read from two stores, since `MineBlock`
clears its scratch delegate cache but not its account cache. -/
def currentDelegate (env : NodeEnv Tx K V) (rankings accounts : Store K V) (height time : Nat) :
    Except BlockError CAccount := do
  let delegateList ← orFail (env.getTopDelegateList rankings) .noTopDelegates
  let delegateList ← orFail (shuffleDelegates env.totalDelegateNum env.hasher height delegateList)
    .delegateIndexOutOfRange
  let regId ← orFail (getCurrentDelegate env.totalDelegateNum (env.blockInterval height) time
    delegateList) .delegateIndexOutOfRange
  orFail (env.getAccount accounts regId) .noDelegateAccount

def shuffledRanking (env : NodeEnv Tx K V) (s : Store K V) (height : Nat) : Option (List Nat) :=
  (env.getTopDelegateList s).bind (shuffleDelegates env.totalDelegateNum env.hasher height)

omit [DecidableEq K] in
theorem currentDelegate_ok {env : NodeEnv Tx K V} {rankings accounts : Store K V}
    {height time : Nat} {acct : CAccount}
    (h : currentDelegate env rankings accounts height time = .ok acct) :
    ∃ shuffled regId, shuffledRanking env rankings height = some shuffled ∧
      getCurrentDelegate env.totalDelegateNum (env.blockInterval height) time shuffled =
        some regId ∧ env.getAccount accounts regId = some acct := by
  simp only [currentDelegate, bind_eq_ok, orFail_eq_ok] at h
  obtain ⟨l, hl, shuffled, hs, regId, hr, ha⟩ := h
  exact ⟨shuffled, regId, by simp [shuffledRanking, hl, hs], hr, ha⟩

/-- The test on the block read from disk, shared by `VerifyRewardTx` and `CreateBlockRewardTx`:
unless the block follows genesis, the previous producer must not be `delegate` when `time` is
less than one interval after the previous block's. -/
def checkPreviousDelegate (env : NodeEnv Tx K V) (accounts : Store K V)
    (height prevBlockHash time : Nat)
    (previousBlock : Option (CBlock Tx)) (delegate : CAccount) : Except BlockError Unit :=
  if height ≠ 1 ∨ prevBlockHash ≠ env.genesisBlockHash then do
    let previousBlock ← orFail previousBlock .readBlockFailed
    let prevDelegateAcct ← orFail (previousBlock.rewardTx.txUid.bind (env.getAccount accounts))
      .noPrevDelegateAccount
    ensure (¬((time : Int) - previousBlock.nTime < env.blockInterval height ∧
      prevDelegateAcct.regid = delegate.regid)) .sameSlot
  else .ok ()

def checkProducer (env : NodeEnv Tx K V) (cw : Store K V) (block : CBlock Tx)
    (curDelegate : CAccount) : Except BlockError Unit := do
  let account ← orFail (block.rewardTx.txUid.bind (env.getAccount cw)) .noAccountInfo
  ensure (curDelegate.regid = account.regid) .wrongDelegate
  let blockHash := env.computeSignatureHash block
  ensure (0 < block.signature.length ∧ block.signature.length ≤ env.maxSignatureSize)
    .invalidSignatureSize
  ensure (env.verifySignature blockHash block.signature account.ownerPubkey = true ∨
    account.minerPubkey.any (env.verifySignature blockHash block.signature) = true)
    .verifySignatureError

/-- `for (uint32_t i = 1; i < pBlock->vptx.size(); i++)` on the scratch cache, with the uint64
`totalRunStep` and `totalFuel`, which adds each `uint32_t fuelFee`. -/
def runBlockTxs (env : NodeEnv Tx K V) (c : TxContract Tx K V) (block : CBlock Tx) :
    Store K V → Nat → UInt64 → UInt64 → List Tx → Except BlockError UInt64
  | _, _, _, totalFuel, [] => .ok totalFuel
  | s, i, totalRunStep, totalFuel, pBaseTx :: rest =>
    if env.haveTx s (c.getHash pBaseTx) then .error .duplicateTx
    else
      match c.executeTx pBaseTx ⟨block.height, i, block.nFuelRate, block.nTime⟩ s with
      | .throw _ => .error .executeThrew
      | .reject _ => .error .executeFailed
      | .ok writes nRunStep =>
        if totalRunStep + nRunStep > env.maxBlockRunStep then .error .runStepExceeded
        else
          let fuelFee : UInt32 := (c.getFuel pBaseTx nRunStep block.height block.nFuelRate).toUInt32
          runBlockTxs env c block (s.applyAll writes) (i + 1) (totalRunStep + nRunStep)
            (totalFuel + fuelFee.toUInt64) rest

/-- `VerifyRewardTx(pBlock, cwIn, bNeedRunTx)`; `previousBlock` is what `ReadBlockFromDisk` gives
for the block's parent. The scratch cache reads as `cwIn` until the first transaction runs. -/
def verifyRewardTx (env : NodeEnv Tx K V) (c : TxContract Tx K V) (block : CBlock Tx)
    (cwIn : Store K V) (previousBlock : Option (CBlock Tx)) (bNeedRunTx : Bool) :
    Except BlockError Unit := do
  let curDelegate ← currentDelegate env cwIn cwIn block.height block.nTime
  ensure (block.nNonce ≤ env.blockMaxNonce) .invalidNonce
  ensure (block.merkleRootHash = env.buildMerkleTree block.rewardTx block.vptx) .wrongMerkleRoot
  checkPreviousDelegate env cwIn block.height block.prevBlockHash block.nTime previousBlock
    curDelegate
  checkProducer env cwIn block curDelegate
  ensure (block.rewardTx.nVersion = env.initTxVersion) .wrongTxVersion
  if bNeedRunTx then
    let totalFuel ← runBlockTxs env c block cwIn 1 0 0 block.vptx
    ensure (totalFuel = block.nFuel) .fuelMismatch

theorem verifyRewardTx_ok {env : NodeEnv Tx K V} {c : TxContract Tx K V} {block : CBlock Tx}
    {cwIn : Store K V} {previousBlock : Option (CBlock Tx)} {bNeedRunTx : Bool}
    (h : verifyRewardTx env c block cwIn previousBlock bNeedRunTx = .ok ()) :
    ∃ cur, currentDelegate env cwIn cwIn block.height block.nTime = .ok cur ∧
      checkPreviousDelegate env cwIn block.height block.prevBlockHash block.nTime previousBlock
        cur = .ok () ∧
      checkProducer env cwIn block cur = .ok () := by
  simp only [verifyRewardTx, bind_eq_ok] at h
  obtain ⟨cur, hcur, -, -, -, -, ⟨⟩, hprev, ⟨⟩, hprod, -⟩ := h
  exact ⟨cur, hcur, hprev, hprod⟩

omit [DecidableEq K] in
theorem checkPreviousDelegate_ok {env : NodeEnv Tx K V} {accounts : Store K V}
    {height prevBlockHash time : Nat} {prev : CBlock Tx} {delegate : CAccount}
    (h : checkPreviousDelegate env accounts height prevBlockHash time (some prev) delegate = .ok ())
    (hg : ¬(height = 1 ∧ prevBlockHash = env.genesisBlockHash)) :
    ∃ a, prev.rewardTx.txUid.bind (env.getAccount accounts) = some a ∧
      ((time : Int) - prev.nTime < env.blockInterval height → a.regid ≠ delegate.regid) := by
  rw [checkPreviousDelegate, if_pos (by tauto)] at h
  simp only [bind_eq_ok, orFail_eq_ok, ensure_eq_ok, Option.some.injEq, not_and] at h
  obtain ⟨_, rfl, a, ha, hsep⟩ := h
  exact ⟨a, ha, hsep⟩

omit [DecidableEq K] in
theorem checkProducer_ok {env : NodeEnv Tx K V} {cw : Store K V} {block : CBlock Tx}
    {cur : CAccount} (h : checkProducer env cw block cur = .ok ()) :
    ∃ a, block.rewardTx.txUid.bind (env.getAccount cw) = some a ∧ cur.regid = a.regid := by
  simp only [checkProducer, bind_eq_ok, orFail_eq_ok, ensure_eq_ok] at h
  obtain ⟨a, ha, -, heq, -⟩ := h
  exact ⟨a, ha, heq⟩

def producedBlock (height time producer : Nat) (nFuel : UInt64) (vptx : List Tx) : CBlock Tx where
  prevBlockHash := height - 1
  merkleRootHash := 0
  nTime := time
  nNonce := 0
  height := height
  nFuel := nFuel
  nFuelRate := 1
  signature := [1]
  rewardTx := ⟨some producer, height, 1, .single 0, 0⟩
  vptx := vptx

/-- The verifier accepts a block claiming no fuel whose two transactions cost `2^32` fuel each and
run `1` and `2^64 - 1` steps against a budget of `1000`: the fuel is narrowed to `uint32` and the
step total wraps to `0`. -/
theorem verifyRewardTx_accepts_wrapped_totals :
    verifyRewardTx (oneDelegateNode Nat) wrapContract (producedBlock 1 100 1 0 [0, 1])
        (fun _ => none) none true = .ok () ∧
      wrapContract.executeTx 0 ⟨1, 1, 1, 100⟩ (fun _ => none) = .ok [] 1 ∧
      wrapContract.executeTx 1 ⟨1, 2, 1, 100⟩ (fun _ => none) = .ok [] 0xFFFFFFFFFFFFFFFF ∧
      (wrapContract.getFuel 0 1 1 1).toNat + (wrapContract.getFuel 1 0xFFFFFFFFFFFFFFFF 1 1).toNat =
        2 ^ 33 ∧
      (producedBlock 1 100 1 0 [0, 1] : CBlock Nat).nFuel.toNat = 0 ∧
      (oneDelegateNode Nat).maxBlockRunStep.toNat < 1 + 0xFFFFFFFFFFFFFFFF :=
  ⟨rfl, rfl, rfl, rfl, rfl, by decide⟩

def blockSlot (env : NodeEnv Tx K V) (b : CBlock Tx) : Nat := b.nTime / env.blockInterval b.height

omit [DecidableEq K] in
theorem sub_lt_interval_of_blockSlot_eq {env : NodeEnv Tx K V} {b₁ b₂ : CBlock Tx}
    (hI : env.blockInterval b₁.height = env.blockInterval b₂.height)
    (hpos : 0 < env.blockInterval b₂.height)
    (h : blockSlot env b₁ = blockSlot env b₂) :
    (b₂.nTime : Int) - b₁.nTime < env.blockInterval b₂.height := by
  unfold blockSlot at h
  rw [hI] at h
  have h₁ := Nat.div_add_mod b₁.nTime (env.blockInterval b₂.height)
  have h₂ := Nat.div_add_mod b₂.nTime (env.blockInterval b₂.height)
  have := Nat.mod_lt b₂.nTime hpos
  rw [h] at h₁
  omega

def rankedFirst (regid : Nat) : Store Nat Nat := fun k => if k = 0 then some regid else none

/-- Delegates `2`, `3`, `2` at times `100`, `101`, `102`, newest first, the ranking changing
between the blocks. -/
def oneSlotChain : List (CBlock Nat × Store Nat Nat) :=
  [(producedBlock 3 102 2 0 [], rankedFirst 2), (producedBlock 2 101 3 0 [], rankedFirst 3),
    (producedBlock 1 100 2 0 [], rankedFirst 2)]

/-- The block's reward transaction belongs to the account of the delegate that the shuffled
ranking of `s` gives for the block's height and slot. -/
def ProducedBySlotDelegate (env : NodeEnv Tx K V) (s : Store K V) (b : CBlock Tx) : Prop :=
  ∃ cur a, currentDelegate env s s b.height b.nTime = .ok cur ∧
    b.rewardTx.txUid.bind (env.getAccount s) = some a ∧ a.regid = cur.regid

/-- Of two consecutive blocks less than one interval apart, the later block's state maps the two
reward transactions' `txUid`s to accounts with different regids. -/
def SlotSeparated (env : NodeEnv Tx K V) (newer older : CBlock Tx × Store K V) : Prop :=
  (newer.1.nTime : Int) - older.1.nTime < env.blockInterval newer.1.height →
    ∃ a₁ a₂, older.1.rewardTx.txUid.bind (env.getAccount newer.2) = some a₁ ∧
      newer.1.rewardTx.txUid.bind (env.getAccount newer.2) = some a₂ ∧ a₁.regid ≠ a₂.regid

/-- Of two consecutive blocks whose states give one shuffled ranking at their heights, under one
interval, the later block lies in a later slot than the earlier one's. -/
def DistinctSlots (env : NodeEnv Tx K V) (newer older : CBlock Tx × Store K V) : Prop :=
  shuffledRanking env newer.2 newer.1.height = shuffledRanking env older.2 older.1.height →
    env.blockInterval older.1.height = env.blockInterval newer.1.height →
    blockSlot env newer.1 ≠ blockSlot env older.1

/-- Chains of blocks, newest first, each with the committed state it was verified on, each
accepted by `VerifyRewardTx(pBlock, cw, true)` with the next block as the one read from disk. -/
inductive AcceptedChain (env : NodeEnv Tx K V) (c : TxContract Tx K V) :
    List (CBlock Tx × Store K V) → Prop
  | first (b : CBlock Tx) (s : Store K V) (previousBlock : Option (CBlock Tx)) :
      verifyRewardTx env c b s previousBlock true = .ok () → AcceptedChain env c [(b, s)]
  | cons (b : CBlock Tx) (s : Store K V) (b' : CBlock Tx) (s' : Store K V)
      (rest : List (CBlock Tx × Store K V)) : AcceptedChain env c ((b', s') :: rest) →
      b.height = b'.height + 1 → ¬(b.height = 1 ∧ b.prevBlockHash = env.genesisBlockHash) →
      verifyRewardTx env c b s (some b') true = .ok () →
      AcceptedChain env c ((b, s) :: (b', s') :: rest)

theorem oneSlotChain_accepted : AcceptedChain (oneDelegateNode Nat) wrapContract oneSlotChain :=
  .cons _ _ _ _ _ (.cons _ _ _ _ _ (.first _ _ none rfl) rfl (by decide) rfl) rfl (by decide) rfl

section Slots

variable {env : NodeEnv Tx K V} {c : TxContract Tx K V}

theorem producedBySlotDelegate_of_verify {b : CBlock Tx} {s : Store K V}
    {previousBlock : Option (CBlock Tx)}
    (h : verifyRewardTx env c b s previousBlock true = .ok ()) :
    ProducedBySlotDelegate env s b := by
  obtain ⟨cur, hcur, -, hprod⟩ := verifyRewardTx_ok h
  obtain ⟨a, ha, heq⟩ := checkProducer_ok hprod
  exact ⟨cur, a, hcur, ha, heq.symm⟩

theorem slotSeparated_of_verify {b b' : CBlock Tx} {s s' : Store K V}
    (hg : ¬(b.height = 1 ∧ b.prevBlockHash = env.genesisBlockHash))
    (h : verifyRewardTx env c b s (some b') true = .ok ()) : SlotSeparated env (b, s) (b', s') := by
  obtain ⟨cur, -, hprev, hprod⟩ := verifyRewardTx_ok h
  obtain ⟨a₁, ha₁, hsep⟩ := checkPreviousDelegate_ok hprev hg
  obtain ⟨a₂, ha₂, heq⟩ := checkProducer_ok hprod
  exact fun ht => ⟨a₁, a₂, ha₁, ha₂, heq ▸ hsep ht⟩

theorem AcceptedChain.produced_head {b : CBlock Tx} {s : Store K V}
    {rest : List (CBlock Tx × Store K V)} (h : AcceptedChain env c ((b, s) :: rest)) :
    ProducedBySlotDelegate env s b := by
  cases h with
  | first _ _ _ hv => exact producedBySlotDelegate_of_verify hv
  | cons _ _ _ _ _ _ _ _ hv => exact producedBySlotDelegate_of_verify hv

section Schedule

-- `GetAccount(regid)` reads the account registered under `regid`.
variable (hreg : ∀ s regid a, env.getAccount s regid = some a → a.regid = regid)
include hreg

omit [DecidableEq K] in
theorem txUid_eq_regid {b : CBlock Tx} {s : Store K V} {a : CAccount}
    (h : b.rewardTx.txUid.bind (env.getAccount s) = some a) : b.rewardTx.txUid = some a.regid := by
  obtain ⟨u, hu, ha⟩ := Option.bind_eq_some.1 h
  rw [hu, hreg _ _ _ ha]

omit [DecidableEq K] in
theorem blockSlot_ne_of_same_ranking {b b' : CBlock Tx} {s s' : Store K V}
    (hp : ProducedBySlotDelegate env s b) (hp' : ProducedBySlotDelegate env s' b')
    (hsep : SlotSeparated env (b, s) (b', s'))
    (hL : shuffledRanking env s b.height = shuffledRanking env s' b'.height)
    (hI : env.blockInterval b'.height = env.blockInterval b.height)
    (hpos : 0 < env.blockInterval b.height) : blockSlot env b ≠ blockSlot env b' := by
  intro hslot
  obtain ⟨a₁, a₂, h₁, h₂, hne⟩ := hsep (sub_lt_interval_of_blockSlot_eq hI hpos hslot.symm)
  obtain ⟨cur, a, hcur, ha, hrc⟩ := hp
  obtain ⟨cur', a', hcur', ha', hrc'⟩ := hp'
  obtain ⟨l, r, hl, hr, hacc⟩ := currentDelegate_ok hcur
  obtain ⟨l', r', hl', hr', hacc'⟩ := currentDelegate_ok hcur'
  have hll : l = l' := Option.some_injective _ (hl.symm.trans (hL.trans hl'))
  have hrr : r' = r := by
    unfold blockSlot at hslot
    rw [hI] at hslot hr'
    rw [getCurrentDelegate_eq_of_div_eq hslot, hll] at hr
    exact Option.some_injective _ (hr'.symm.trans hr)
  apply hne
  calc a₁.regid = a'.regid := Option.some_injective _ ((txUid_eq_regid hreg h₁).symm.trans
        (txUid_eq_regid hreg ha'))
    _ = cur'.regid := hrc'
    _ = r' := hreg _ _ _ hacc'
    _ = r := hrr
    _ = cur.regid := (hreg _ _ _ hacc).symm
    _ = a.regid := hrc.symm
    _ = a₂.regid := by rw [Option.some_injective _ (ha.symm.trans h₂)]

/-- On every accepted chain whose accounts are read by regid, and whose intervals are positive,
two consecutive blocks scheduled from one shuffled ranking under one interval lie in different
slots. -/
theorem acceptedChain_distinct_slots (hpos : ∀ height, 0 < env.blockInterval height)
    {chain : List (CBlock Tx × Store K V)} (h : AcceptedChain env c chain) :
    chain.Chain' (DistinctSlots env) := by
  induction h with
  | first => exact List.chain'_singleton _
  | cons b s b' s' rest htail _ hg hv ih =>
    exact ih.cons fun hL hI => blockSlot_ne_of_same_ranking hreg
      (producedBySlotDelegate_of_verify hv) htail.produced_head (slotSeparated_of_verify hg hv)
      hL hI (hpos _)

end Schedule

end Slots

/-- Delegate `2` at times `100` and `110`, newest first, under one ranking. -/
def nextSlotChain : List (CBlock Nat × Store Nat Nat) :=
  [(producedBlock 2 110 2 0 [], rankedFirst 2), (producedBlock 1 100 2 0 [], rankedFirst 2)]

theorem acceptedChain_distinct_slots_nextSlot :
    AcceptedChain (oneDelegateNode Nat) wrapContract nextSlotChain ∧
      nextSlotChain.Chain' (DistinctSlots (oneDelegateNode Nat)) :=
  have h : AcceptedChain (oneDelegateNode Nat) wrapContract nextSlotChain :=
    .cons _ _ _ _ _ (.first _ _ none rfl) rfl (by decide) rfl
  ⟨h, acceptedChain_distinct_slots (fun _ _ _ h => by cases h; rfl) (fun _ => Nat.succ_pos 9) h⟩

/-- The three blocks are accepted, all lie in slot `10`, and the first and the last are
produced by the same delegate. -/
theorem acceptedChain_one_slot_twice :
    AcceptedChain (oneDelegateNode Nat) wrapContract oneSlotChain ∧
      (∀ p ∈ oneSlotChain, blockSlot (oneDelegateNode Nat) p.1 = 10) ∧
      (oneSlotChain.map fun p => p.1.rewardTx.txUid) = [some 2, some 3, some 2] :=
  ⟨oneSlotChain_accepted, by decide, rfl⟩

end WaykiChain.Miner.Verifier
