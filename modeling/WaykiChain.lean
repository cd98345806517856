import WaykiChain.Double
import WaykiChain.Persistence.RatioKey
import WaykiChain.Persistence.CdpDb
import WaykiChain.Persistence.CacheWrapper
import WaykiChain.Miner.PriorityQueue
import WaykiChain.Miner.Shuffle
import WaykiChain.Miner.FuelRate
import WaykiChain.Miner.Block
import WaykiChain.Miner.Assembler
import WaykiChain.Miner.Verifier
import WaykiChain.Miner.Mining
import WaykiChain.Miner.MinedBlocks
import WaykiChain.Tx.CoinTransfer
import WaykiChain.Tx.Serialize
