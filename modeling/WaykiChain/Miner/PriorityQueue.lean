import WaykiChain.Double

/-! # The mempool priority order

`TxPriority::operator<` orders the `std::set` that `GetPriorityTx` fills and both assemblers read
from its largest element down. Priorities within 1000 of each other fall through to the fee
test; there the code takes `fabs` of the boolean `feePerKb < other.feePerKb`, so the hash
decides exactly when the fee test fails. The fields are `double`s and every test computes as the
code's does: the window test rounds `priority - other.priority` first. A NaN priority, or two
equal infinities, fall outside the window and compare by `<`, which fails both ways, so records
are ordered one way or the other only when their priorities are finite.
-/

namespace WaykiChain.Miner.PriorityQueue

/-- A queue record; the transaction enters the order only through its hash. -/
structure TxPriority (TxId : Type) where
  priority : Double
  feePerKb : Double
  txHash : TxId

/-- The double nearest the literal `1e-8`. -/
def feeEpsilon : Double := ⟨0x3E45798EE2308C3A⟩

variable {TxId : Type}

/-- `fabs(this->priority - other.priority) <= 1000`. -/
def near (a b : TxPriority TxId) : Bool := (a.priority.sub b.priority).abs.le (.ofUInt64 1000)

theorem near_comm (a b : TxPriority TxId) : near a b = near b a := by
  simp only [near, Double.abs_sub_comm]

set_option exponentiation.threshold 4200 in
theorem near_of_ord_eq {a b : TxPriority TxId} (ha : a.priority.isFinite)
    (hb : b.priority.isFinite) (h : a.priority.ord = b.priority.ord) : near a b = true := by
  rw [near, Double.sub_abs_of_ord_eq ha hb h]
  rfl

-- `1000 + 2^-43` and `127 · 2^-50` are `1000 + 2^-50` apart, which rounds to `1000`.
set_option exponentiation.threshold 4200 in
example : near (⟨⟨0x408F400000000001⟩, ⟨0⟩, 0⟩ : TxPriority (Fin 1))
    ⟨⟨0x3D3FC00000000000⟩, ⟨0⟩, 0⟩ = true := rfl

variable [LinearOrder TxId]

/-- `TxPriority::operator<` as written, including `fabs(this->feePerKb < other.feePerKb)`. -/
def operatorLt (a b : TxPriority TxId) : Bool :=
  if near a b then
    if (Double.ofBool (a.feePerKb.lt b.feePerKb)).abs.le feeEpsilon then
      decide (a.txHash < b.txHash)
    else a.feePerKb.lt b.feePerKb
  else a.priority.lt b.priority

set_option exponentiation.threshold 4200 in
theorem ofBool_abs_le_feeEpsilon (b : Bool) : (Double.ofBool b).abs.le feeEpsilon = !b := by
  cases b <;> rfl

/-- Inside the priority window the fee test falls through to the hash exactly when it fails. -/
theorem operatorLt_of_near {a b : TxPriority TxId} (h : near a b = true) :
    operatorLt a b = (a.feePerKb.lt b.feePerKb || decide (a.txHash < b.txHash)) := by
  cases hf : a.feePerKb.lt b.feePerKb <;> simp [operatorLt, h, hf, ofBool_abs_le_feeEpsilon]

theorem operatorLt_irrefl (a : TxPriority TxId) : operatorLt a a = false := by
  simp [operatorLt, Double.lt_irrefl, ofBool_abs_le_feeEpsilon]

theorem operatorLt_connex {a b : TxPriority TxId} (ha : a.priority.isFinite)
    (hb : b.priority.isFinite) (h : a.txHash ≠ b.txHash) :
    operatorLt a b = true ∨ operatorLt b a = true := by
  by_cases hn : near a b = true
  · rw [operatorLt_of_near hn, operatorLt_of_near (near_comm a b ▸ hn)]
    rcases lt_or_gt_of_ne h with hh | hh <;> simp [hh]
  · have hne : a.priority.ord ≠ b.priority.ord := fun he => hn (near_of_ord_eq ha hb he)
    have hn' : near b a = false := by rw [near_comm]; simpa using hn
    simp only [Bool.not_eq_true] at hn
    simp only [operatorLt, hn, hn', Bool.false_eq_true, ↓reduceIte]
    exact Double.lt_or_lt_of_ord_ne ha hb hne

theorem operatorLt_irrefl_connex :
    (∀ a : TxPriority TxId, operatorLt a a = false) ∧
      ∀ a b : TxPriority TxId, a.priority.isFinite → b.priority.isFinite → a.txHash ≠ b.txHash →
        operatorLt a b = true ∨ operatorLt b a = true :=
  ⟨operatorLt_irrefl, fun _ _ => operatorLt_connex⟩

/-- A record of integral priority and fee. -/
def queueRecord (priority feePerKb : UInt64) (txHash : Fin 3) : TxPriority (Fin 3) :=
  ⟨.ofUInt64 priority, .ofUInt64 feePerKb, txHash⟩

set_option exponentiation.threshold 4200 in
/-- Priorities 1800, 900 and 0 are each within 1000 of the next but not of each other: the fee
test orders the first two pairs and the priority test reverses the outer pair. A fee gap in one
direction with a hash gap in the other orders a pair both ways. -/
theorem operatorLt_not_strict_weak_order :
    operatorLt (queueRecord 1800 0 0) (queueRecord 900 1 1) = true ∧
      operatorLt (queueRecord 900 1 1) (queueRecord 0 2 2) = true ∧
      operatorLt (queueRecord 1800 0 0) (queueRecord 0 2 2) = false ∧
      operatorLt (queueRecord 0 0 1) (queueRecord 0 1 0) = true ∧
      operatorLt (queueRecord 0 1 0) (queueRecord 0 0 1) = true :=
  ⟨rfl, rfl, rfl, rfl, rfl⟩

end WaykiChain.Miner.PriorityQueue
