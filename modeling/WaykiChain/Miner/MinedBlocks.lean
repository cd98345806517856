import Mathlib
import WaykiChain.Miner.Mining

/-! # The ring of mined blocks

`MineBlock` records each block it signs in `minedBlocks`, a `boost::circular_buffer` of capacity
`MAX_MINED_BLOCK_COUNT`, with `push_front`, and `GetMinedBlocks(count)` copies its first `count`
entries. The record is the global `miningBlockInfo`: `CoinMiner` nulls it before each block,
`CreateNewBlock*` fills in the transaction count, the block size and the fees, and `MineBlock` the
header fields and the hashes, once `CreateBlockRewardTx` has succeeded, whatever `CheckWork` then
answers.

`circular_buffer` is not in src/. It is modelled as boost documents `push_front`: on a full buffer
the last element is dropped, and a buffer of capacity `0` stores nothing.
-/

namespace WaykiChain.Miner.MinedBlocks
open Persistence.CacheWrapper Block Assembler Verifier Mining

variable {Tx K V α : Type}

structure MinedBlockInfo where
  time : Nat
  nonce : Nat
  height : Nat
  totalFuel : UInt64
  fuelRate : Nat
  totalFees : UInt64
  txCount : UInt64
  totalBlockSize : UInt64
  hash : Nat
  hashPrevBlock : Nat
deriving DecidableEq

def MinedBlockInfo.setNull : MinedBlockInfo := ⟨0, 0, 0, 0, 0, 0, 0, 0, 0, 0⟩

/-- A `boost::circular_buffer` seen from its front: at most `capacity` elements. -/
structure CircularBuffer (α : Type) where
  capacity : Nat
  items : List α
  length_le : items.length ≤ capacity

namespace CircularBuffer

def empty (capacity : Nat) : CircularBuffer α := ⟨capacity, [], Nat.zero_le _⟩

/-- `push_front(x)`: a full buffer drops its last element first, one of capacity `0` stays empty. -/
def pushFront (buf : CircularBuffer α) (x : α) : CircularBuffer α :=
  if h : buf.items.length < buf.capacity then ⟨buf.capacity, x :: buf.items, h⟩
  else if hz : buf.capacity = 0 then buf
  else ⟨buf.capacity, x :: buf.items.dropLast, by
    have := buf.length_le; rw [List.length_cons, List.length_dropLast]; omega⟩

def pushAll (buf : CircularBuffer α) (history : List α) : CircularBuffer α :=
  history.foldl pushFront buf

@[simp] theorem capacity_pushFront (buf : CircularBuffer α) (x : α) :
    (buf.pushFront x).capacity = buf.capacity := by
  unfold pushFront; split_ifs <;> rfl

@[simp] theorem capacity_pushAll (buf : CircularBuffer α) (history : List α) :
    (buf.pushAll history).capacity = buf.capacity := by
  induction history generalizing buf with
  | nil => rfl
  | cons x history ih => exact (ih _).trans (capacity_pushFront _ _)

theorem items_pushFront (buf : CircularBuffer α) (x : α) :
    (buf.pushFront x).items = (x :: buf.items).take buf.capacity := by
  have hle := buf.length_le
  unfold pushFront
  split_ifs with hlt hz
  · exact (List.take_of_length_le (by simpa using hlt)).symm
  · rw [hz, List.take_zero]
    exact List.eq_nil_of_length_eq_zero (by omega)
  · obtain ⟨n, hn⟩ := Nat.exists_eq_succ_of_ne_zero hz
    show x :: buf.items.dropLast = List.take buf.capacity (x :: buf.items)
    rw [hn, List.take_succ_cons, List.dropLast_eq_take]
    congr 2
    omega

theorem items_pushAll (buf : CircularBuffer α) (history : List α) :
    (buf.pushAll history).items = (history.reverse ++ buf.items).take buf.capacity := by
  induction history generalizing buf with
  | nil => exact (List.take_of_length_le buf.length_le).symm
  | cons x history ih =>
    rw [pushAll, List.foldl_cons, ← pushAll, ih, capacity_pushFront, items_pushFront,
      List.reverse_cons, List.append_assoc, List.singleton_append, List.take_append_eq_append_take,
      List.take_take, List.take_append_eq_append_take, Nat.min_eq_left (Nat.sub_le _ _)]

theorem mem_pushFront {buf : CircularBuffer α} {x y : α} (h : y ∈ (buf.pushFront x).items) :
    y = x ∨ y ∈ buf.items := by
  rw [items_pushFront] at h
  exact List.mem_cons.1 (List.mem_of_mem_take h)

end CircularBuffer

theorem filterMap_range_getElem? (l : List α) (count : Nat) :
    (List.range count).filterMap (l[·]?) = l.take count := by
  induction count with
  | zero => rfl
  | succ n ih =>
    rw [List.range_succ, List.filterMap_append, ih, List.take_succ]
    cases h : l[n]? <;> simp [h]

/-- `GetMinedBlocks(count)`: `count = std::min((uint32_t)minedBlocks.size(), count)`, then
`minedBlocks[i]` for every `i < count`. -/
def getMinedBlocks (minedBlocks : CircularBuffer MinedBlockInfo) (count : UInt32) :
    List MinedBlockInfo :=
  let size := UInt32.ofNat minedBlocks.items.length
  let count := if count < size then count else size
  (List.range count.toNat).filterMap (minedBlocks.items[·]?)

theorem getMinedBlocks_eq_take {minedBlocks : CircularBuffer MinedBlockInfo}
    (hcap : minedBlocks.capacity < 2 ^ 32) (count : UInt32) :
    getMinedBlocks minedBlocks count = minedBlocks.items.take count.toNat := by
  have hsize : (UInt32.ofNat minedBlocks.items.length).toNat = minedBlocks.items.length :=
    UInt32.toNat_ofNat_of_lt (by have := minedBlocks.length_le; unfold UInt32.size; omega)
  rw [getMinedBlocks, filterMap_range_getElem?]
  split_ifs with h
  · rfl
  · rw [hsize, List.take_length, List.take_of_length_le]
    have hle : (UInt32.ofNat minedBlocks.items.length).toNat ≤ count.toNat := Nat.le_of_not_lt h
    rwa [hsize] at hle

/-- Whatever was pushed, from an empty ring whose capacity fits `uint32_t`, `GetMinedBlocks(count)`
returns the last `min(count, capacity)` records pushed, the newest first. -/
theorem getMinedBlocks_pushAll {capacity : Nat} (hcap : capacity < 2 ^ 32)
    (history : List MinedBlockInfo) (count : UInt32) :
    getMinedBlocks ((CircularBuffer.empty capacity).pushAll history) count =
      history.reverse.take (min count.toNat capacity) := by
  rw [getMinedBlocks_eq_take (by simpa [CircularBuffer.empty] using hcap),
    CircularBuffer.items_pushAll]
  simp [CircularBuffer.empty, List.take_take]

theorem getMinedBlocks_pushAll_four :
    (3 : Nat) < 2 ^ 32 ∧
      getMinedBlocks ((CircularBuffer.empty 3).pushAll
          [{ MinedBlockInfo.setNull with height := 1 }, { MinedBlockInfo.setNull with height := 2 },
            { MinedBlockInfo.setNull with height := 3 },
            { MinedBlockInfo.setNull with height := 4 }]) 2 =
        [{ MinedBlockInfo.setNull with height := 4 },
          { MinedBlockInfo.setNull with height := 3 }] :=
  ⟨by norm_num, (getMinedBlocks_pushAll (by norm_num) _ 2).trans rfl⟩

/-! ## The records `CoinMiner` and `MineBlock` push -/

/-- What `CreateNewBlockPreStableCoinRelease` and `CreateNewBlockStableCoinRelease` write into
`miningBlockInfo` after the loop: `txCount = index + 1`, the block size and the fees. -/
def packedInfo (st : PackState Tx K V) (info : MinedBlockInfo) : MinedBlockInfo :=
  { info with
    txCount := UInt64.ofNat (st.index + 1)
    totalBlockSize := st.totalBlockSize
    totalFees := st.totalFees }

/-- What `MineBlock` writes into `miningBlockInfo` once the block is signed; `hashPrevBlock` is
assigned `pBlock->GetHash()` too. -/
def minedInfo (getHash : CBlock Tx → Nat) (pBlock : CBlock Tx) (info : MinedBlockInfo) :
    MinedBlockInfo :=
  { info with
    time := pBlock.nTime
    nonce := pBlock.nNonce
    height := pBlock.height
    totalFuel := pBlock.nFuel
    fuelRate := pBlock.nFuelRate
    hash := getHash pBlock
    hashPrevBlock := getHash pBlock }

/-- What one turn of `MineBlock`'s loop reads outside the caches: whether the node has no peer off
regtest, whether the tip moved, the clock once the slot has come, whether the active height moved
on, whether the wallet holds the miner's key, the nonce `GetRand` draws, and whether the mempool
changed or a minute went by. -/
structure MinePass where
  noPeers : Bool
  tipMoved : Bool
  currentTime : Nat
  heightMoved : Bool
  haveKey : Bool
  nonce : Nat
  giveUp : Bool

/-- `MineBlock`'s loop over the turns it makes, with `minedBlocks` and `miningBlockInfo` as they
are on entry; `none` is a loop still turning when the turns run out. The ranking is read from the
committed state, the miner's account from `cw`. A turn whose `CreateBlockRewardTx` fails retries
from `pBlock` as it came in (see `createBlockRewardTx_stampBlock`). -/
def mineBlockLoop (env : NodeEnv Tx K V) (getHash : CBlock Tx → Nat) (committed cw : Store K V)
    (previousBlock : Option (CBlock Tx)) (pBlock : CBlock Tx) (info : MinedBlockInfo) :
    List MinePass → CircularBuffer MinedBlockInfo → Option (Bool × CircularBuffer MinedBlockInfo)
  | [], _ => none
  | pass :: passes, minedBlocks =>
    if pass.noPeers || pass.tipMoved then some (false, minedBlocks)
    else
      match currentDelegate env committed cw pBlock.height pass.currentTime with
      | .error _ => some (false, minedBlocks)
      | .ok minerAcct =>
        if pass.heightMoved then some (false, minedBlocks)
        else
          match pass.haveKey, createBlockRewardTx env pass.currentTime minerAcct cw previousBlock
              pass.nonce pBlock with
          | true, .ok B => some (true, minedBlocks.pushFront (minedInfo getHash B info))
          | _, _ =>
            if pass.giveUp then some (false, minedBlocks)
            else mineBlockLoop env getHash committed cw previousBlock pBlock info passes minedBlocks

/-- A turn whose `Sign` fails leaves `pBlock` stamped, and the next turn stamps each of those fields
again: retrying from the stamped block is retrying from the block itself, as `mineBlockLoop`
does. -/
theorem createBlockRewardTx_stampBlock (env : NodeEnv Tx K V) (currentTime nonce : Nat)
    (delegate : CAccount) (currentTime' nonce' : Nat) (delegate' : CAccount)
    (accountCache : Store K V) (previousBlock : Option (CBlock Tx)) (pBlock : CBlock Tx) :
    createBlockRewardTx env currentTime' delegate' accountCache previousBlock nonce'
        (stampBlock env currentTime delegate nonce pBlock) =
      createBlockRewardTx env currentTime' delegate' accountCache previousBlock nonce' pBlock := by
  cases h : pBlock.rewardTx.rewardFees <;> simp [createBlockRewardTx, stampBlock, h]

/-- `MineBlock` leaves the ring as it was and returns `false`, or returns `true` having pushed
exactly the record of the block one of its turns signed through `mineBlock`. -/
theorem mineBlockLoop_cases {env : NodeEnv Tx K V} {getHash : CBlock Tx → Nat}
    {committed cw : Store K V} {previousBlock : Option (CBlock Tx)} {pBlock : CBlock Tx}
    {info : MinedBlockInfo} {mined : Bool} {minedBlocks' : CircularBuffer MinedBlockInfo} :
    ∀ {passes : List MinePass} {minedBlocks : CircularBuffer MinedBlockInfo},
      mineBlockLoop env getHash committed cw previousBlock pBlock info passes minedBlocks =
          some (mined, minedBlocks') →
        mined = false ∧ minedBlocks' = minedBlocks ∨
          mined = true ∧ ∃ pass ∈ passes, ∃ B,
            mineBlock env committed cw pass.currentTime pass.nonce previousBlock pBlock = .ok B ∧
            minedBlocks' = minedBlocks.pushFront (minedInfo getHash B info)
  | [], _, h => by cases h
  | pass :: passes, minedBlocks, h => by
    have hstop : some (false, minedBlocks) = some (mined, minedBlocks') →
        mined = false ∧ minedBlocks' = minedBlocks := fun h => by cases h; exact ⟨rfl, rfl⟩
    simp only [mineBlockLoop] at h
    split at h
    · exact .inl (hstop h)
    split at h
    · exact .inl (hstop h)
    rename_i minerAcct hcur
    split at h
    · exact .inl (hstop h)
    split at h
    · rename_i B _ hcreate
      cases h
      exact .inr ⟨rfl, pass, List.mem_cons_self _ _, B,
        bind_eq_ok.2 ⟨minerAcct, hcur, hcreate⟩, rfl⟩
    split at h
    · exact .inl (hstop h)
    rcases mineBlockLoop_cases h with h | ⟨hm, p, hp, B, hB, h⟩
    · exact .inl h
    · exact .inr ⟨hm, p, List.mem_cons_of_mem _ hp, B, hB, h⟩

/-! ## Runs of `CoinMiner` -/

section Runs

variable [DecidableEq K] (env : NodeEnv Tx K V) (c : TxContract Tx K V) (getHash : CBlock Tx → Nat)
  (stableCoinGenesisHeight : Nat) (fundCoinRewardTxs : List Tx)

/-- The block `CoinMiner` creates at the next height, with the cache `MineBlock` then reads accounts
from and `miningBlockInfo` as creating the block leaves it: the genesis block at the stable-coin
genesis height, else the release `GetFeatureForkVersion` selects; `none` is a failed `assert`. -/
def createBlock (isMajorVerR1 : Bool) (a : AssemblyInput Tx) (S : Store K V) :
    Option (CBlock Tx × Store K V × MinedBlockInfo) :=
  if a.prevHeight + 1 = stableCoinGenesisHeight then
    some (createStableCoinGenesisBlock env a fundCoinRewardTxs, S, .setNull)
  else
    (if isMajorVerR1 then createNewBlockPreStableCoinRelease env c a S
      else createNewBlockStableCoinRelease env c a S).map
      fun (pBlock, st) => (pBlock, st.cw, packedInfo st .setNull)

/-- What one round of `CoinMiner` reads: whether the next height is at `MAJOR_VER_R1`, the assembly
input, the committed state, the parent block on disk, and the turns of `MineBlock`. -/
structure MinerRound (Tx K V : Type) where
  isMajorVerR1 : Bool
  input : AssemblyInput Tx
  committed : Store K V
  previousBlock : Option (CBlock Tx)
  passes : List MinePass

def coinMinerRound (r : MinerRound Tx K V) (minedBlocks : CircularBuffer MinedBlockInfo) :
    Option (Bool × CircularBuffer MinedBlockInfo) :=
  (createBlock env c stableCoinGenesisHeight fundCoinRewardTxs r.isMajorVerR1 r.input
    r.committed).bind fun (pBlock, cw, info) =>
      mineBlockLoop env getHash r.committed cw r.previousBlock pBlock info r.passes minedBlocks

def coinMinerRun : List (MinerRound Tx K V) → CircularBuffer MinedBlockInfo →
    Option (CircularBuffer MinedBlockInfo)
  | [], minedBlocks => some minedBlocks
  | r :: rounds, minedBlocks =>
    (coinMinerRound env c getHash stableCoinGenesisHeight fundCoinRewardTxs r minedBlocks).bind
      fun (_, minedBlocks) => coinMinerRun rounds minedBlocks

/-- `rec` is what `MineBlock` pushes for `B`, signed at one of the turns of round `r` from the
block `CoinMiner` created in it. -/
def SignedIn (r : MinerRound Tx K V) (B : CBlock Tx) (rec : MinedBlockInfo) : Prop :=
  ∃ pBlock cw info, createBlock env c stableCoinGenesisHeight fundCoinRewardTxs r.isMajorVerR1
      r.input r.committed = some (pBlock, cw, info) ∧
    ∃ pass ∈ r.passes, mineBlock env r.committed cw pass.currentTime pass.nonce r.previousBlock
      pBlock = .ok B ∧ rec = minedInfo getHash B info

variable {env c getHash stableCoinGenesisHeight fundCoinRewardTxs}

omit [DecidableEq K] in
theorem mineBlock_ok {committed cw : Store K V} {currentTime nonce : Nat}
    {previousBlock : Option (CBlock Tx)} {pBlock B : CBlock Tx}
    (h : mineBlock env committed cw currentTime nonce previousBlock pBlock = .ok B) :
    B.height = pBlock.height ∧ B.vptx = pBlock.vptx := by
  obtain ⟨_, -, hcreate⟩ := bind_eq_ok.1 h
  obtain ⟨-, _, -, rfl⟩ := createBlockRewardTx_ok hcreate
  exact ⟨rfl, rfl⟩

theorem packedInfo_txCount {a : AssemblyInput Tx} {S : Store K V} {blk : CBlock Tx}
    {st : PackState Tx K V}
    (h : createNewBlockPreStableCoinRelease env c a S = some (blk, st) ∨
      createNewBlockStableCoinRelease env c a S = some (blk, st)) (info : MinedBlockInfo) :
    blk.height = a.prevHeight + 1 ∧
      (packedInfo st info).txCount = UInt64.ofNat (blk.vptx.length + 1) := by
  obtain ⟨⟨rewardFees, rfl⟩, hidx, -⟩ := createNewBlock_packed h
  exact ⟨rfl, by simp [assembledBlock, packedInfo, hidx]⟩

theorem createBlock_txCount {isMajorVerR1 : Bool} {a : AssemblyInput Tx} {S cw : Store K V}
    {pBlock : CBlock Tx} {info : MinedBlockInfo}
    (h : createBlock env c stableCoinGenesisHeight fundCoinRewardTxs isMajorVerR1 a S =
      some (pBlock, cw, info)) :
    info.txCount = if pBlock.height = stableCoinGenesisHeight then 0
      else UInt64.ofNat (pBlock.vptx.length + 1) := by
  unfold createBlock at h
  split_ifs at h with hg hv
  · cases h
    simp [createStableCoinGenesisBlock, hg, MinedBlockInfo.setNull]
  · obtain ⟨⟨blk, st⟩, hA, ⟨⟩⟩ := Option.map_eq_some'.1 h
    obtain ⟨hh, hc⟩ := packedInfo_txCount (.inl hA) .setNull
    rw [hc, hh, if_neg hg]
  · obtain ⟨⟨blk, st⟩, hA, ⟨⟩⟩ := Option.map_eq_some'.1 h
    obtain ⟨hh, hc⟩ := packedInfo_txCount (.inr hA) .setNull
    rw [hc, hh, if_neg hg]

theorem coinMinerRun_mem :
    ∀ {rounds : List (MinerRound Tx K V)} {ring ring' : CircularBuffer MinedBlockInfo},
      coinMinerRun env c getHash stableCoinGenesisHeight fundCoinRewardTxs rounds ring =
          some ring' →
        ∀ rec ∈ ring'.items, rec ∈ ring.items ∨ ∃ r ∈ rounds, ∃ B,
          SignedIn env c getHash stableCoinGenesisHeight fundCoinRewardTxs r B rec
  | [], _, _, h, rec, hrec => by cases h; exact .inl hrec
  | r :: rounds, ring, ring', h, rec, hrec => by
    obtain ⟨⟨_, ring₁⟩, hround, hrest⟩ := Option.bind_eq_some.1 h
    obtain ⟨⟨pBlock, cw, info⟩, hcreate, hloop⟩ := Option.bind_eq_some.1 hround
    have hmid : ∀ rec ∈ ring₁.items, rec ∈ ring.items ∨
        ∃ B, SignedIn env c getHash stableCoinGenesisHeight fundCoinRewardTxs r B rec := by
      intro rec hrec
      rcases mineBlockLoop_cases hloop with ⟨-, rfl⟩ | ⟨-, pass, hpass, B, hB, rfl⟩
      · exact .inl hrec
      · rcases CircularBuffer.mem_pushFront hrec with rfl | hrec
        · exact .inr ⟨B, pBlock, cw, info, hcreate, pass, hpass, hB, rfl⟩
        · exact .inl hrec
    rcases coinMinerRun_mem hrest rec hrec with hrec | ⟨r', hr', B, hB⟩
    · rcases hmid rec hrec with hrec | ⟨B, hB⟩
      · exact .inl hrec
      · exact .inr ⟨r, List.mem_cons_self _ _, B, hB⟩
    · exact .inr ⟨r', List.mem_cons_of_mem _ hr', B, hB⟩

/-- After any run of `CoinMiner` from an empty ring, every entry `GetMinedBlocks` can return is the
record of a block `MineBlock` signed in one of the rounds: its height, time, nonce and hash are
that block's, `hashPrevBlock` is that block's own hash, and `txCount` counts the reward transaction
with the packed ones, except at the stable-coin genesis height, where it stays `0`. -/
theorem coinMinerRun_records {capacity : Nat} {rounds : List (MinerRound Tx K V)}
    {ring : CircularBuffer MinedBlockInfo}
    (h : coinMinerRun env c getHash stableCoinGenesisHeight fundCoinRewardTxs rounds
      (.empty capacity) = some ring) :
    ∀ rec ∈ ring.items, ∃ r ∈ rounds, ∃ B,
      SignedIn env c getHash stableCoinGenesisHeight fundCoinRewardTxs r B rec ∧
      rec.height = B.height ∧ rec.time = B.nTime ∧ rec.nonce = B.nNonce ∧
      rec.hash = getHash B ∧ rec.hashPrevBlock = getHash B ∧
      rec.txCount =
        if B.height = stableCoinGenesisHeight then 0 else UInt64.ofNat (B.vptx.length + 1) := by
  intro rec hrec
  rcases coinMinerRun_mem h rec hrec with hrec | ⟨r, hr, B, hB⟩
  · cases hrec
  obtain ⟨pBlock, cw, info, hcreate, pass, hpass, hmine, rfl⟩ := hB
  obtain ⟨hheight, hvptx⟩ := mineBlock_ok hmine
  refine ⟨r, hr, B, ⟨pBlock, cw, info, hcreate, pass, hpass, hmine, rfl⟩, rfl, rfl, rfl, rfl, rfl,
    ?_⟩
  rw [hheight, hvptx]
  exact (createBlock_txCount hcreate :)

end Runs

/-- A round of the pre-stable-coin release at height `1`, mined at the first turn at time `110`. -/
def firstRound : MinerRound Nat Nat Nat :=
  ⟨true, ⟨0, 0, 101, 101, 1, 100, 1000, fun _ => false, [5], 0⟩, fun _ => none, none,
    [⟨false, false, 110, false, true, 0, false⟩]⟩

theorem coinMinerRun_records_firstRound :
    ∃ ring, coinMinerRun (oneDelegateNode Nat) timedContract (·.height) 100 [] [firstRound]
        (.empty 2) = some ring ∧ ring.items.map (·.txCount) = [2] ∧
      ∀ rec ∈ ring.items, ∃ r ∈ [firstRound], ∃ B,
        SignedIn (oneDelegateNode Nat) timedContract (·.height) 100 [] r B rec ∧
        rec.height = B.height ∧ rec.time = B.nTime ∧ rec.nonce = B.nNonce ∧
        rec.hash = B.height ∧ rec.hashPrevBlock = B.height ∧
        rec.txCount = if B.height = 100 then 0 else UInt64.ofNat (B.vptx.length + 1) :=
  ⟨_, rfl, rfl, coinMinerRun_records rfl⟩

end WaykiChain.Miner.MinedBlocks
