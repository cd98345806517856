import Mathlib
import WaykiChain.Tx.Serialize

/-! # Coin transfers and their signature hashes

`CBaseCoinTransferTx` moves WICC to one account and `CCoinTransferTx` moves tokens to a list of
accounts. `ComputeSignatureHash` hashes the signed fields as `CHashWriter` writes them: the version,
the type byte, the valid height, the sender, then the transfer's own fields. Each is written in a
self-delimiting encoding, so equal preimages have equal signed fields, as long as the two `int32_t`
fields are non-negative: `VARINT` writes only the low seven bits of a negative one. The same
fields but the type byte, with the signature, are what `IMPLEMENT_SERIALIZE` writes and reads
back; the fee symbol of a `CBaseCoinTransferTx` is in neither. `CUserID` is not in the source
shown; its model follows the spec.
-/

namespace WaykiChain.Tx.CoinTransfer
open Serialize

/-- Modelled from the spec: `CUserID` names an account by nothing (`CNullID`), by its RegID
`(block_height, tx_index)`, by its KeyID (a 20-byte address hash) or by its 33-byte public key. -/
inductive CUserID
  | nullId
  | regId (height : UInt32) (index : UInt16)
  | keyId (hash : Mathlib.Vector UInt8 20)
  | pubKey (key : Mathlib.Vector UInt8 33)

namespace CUserID

/-- Modelled from the spec: the bytes an id stands for, none for `CNullID`, a RegID's height and
index as `VARINT`s, a KeyID's or a public key's own bytes. -/
def raw : CUserID → List UInt8
  | nullId => []
  | regId height index => writeVarInt height.toNat ++ writeVarInt index.toNat
  | keyId hash => hash.toList
  | pubKey key => key.toList

/-- Modelled from the spec: `ss << uid` writes the id's bytes behind their length, which tells
the kinds apart. -/
def serialize (uid : CUserID) : List UInt8 := serBytes uid.raw

theorem length_raw_regId (height : UInt32) (index : UInt16) :
    2 ≤ (regId height index).raw.length ∧ (regId height index).raw.length ≤ 8 := by
  have h₁ := length_writeVarIntAux_le 4 false height.toNat
    (lt_of_lt_of_le height.toNat_lt (by norm_num))
  have h₂ := length_writeVarIntAux_le 2 false index.toNat
    (lt_of_lt_of_le index.toNat_lt (by norm_num))
  have h₃ := length_writeVarInt_pos height.toNat
  have h₄ := length_writeVarInt_pos index.toNat
  simp only [raw, List.length_append, writeVarInt] at *
  omega

/-- Modelled from the spec: reading an id back from its bytes, whose length tells the kind. -/
def ofRaw (bytes : List UInt8) : Option CUserID :=
  if bytes.length = 0 then some nullId
  else if h20 : bytes.length = 20 then some (keyId ⟨bytes, h20⟩)
  else if h33 : bytes.length = 33 then some (pubKey ⟨bytes, h33⟩)
  else match readVarIntAux 0 bytes with
    | some (height, rest) =>
      match readVarIntAux 0 rest with
      | some (index, []) => some (regId height.toUInt32 index.toUInt16)
      | _ => none
    | none => none

theorem ofRaw_raw (uid : CUserID) : ofRaw uid.raw = some uid := by
  cases uid with
  | nullId => rfl
  | regId height index =>
    obtain ⟨h₁, h₂⟩ := length_raw_regId height index
    have hi := readVarIntAux_writeVarInt index.toNat []
    rw [List.append_nil] at hi
    simp only [raw] at h₁ h₂ ⊢
    rw [ofRaw, if_neg (by omega), dif_neg (by omega), dif_neg (by omega),
      readVarIntAux_writeVarInt]
    simp only [hi]
    congr 2
    · exact UInt32.ext (UInt32.toNat_ofNat_of_lt height.toNat_lt)
    · exact UInt16.ext (UInt16.toNat_ofNat_of_lt index.toNat_lt)
  | keyId hash => simp [raw, ofRaw, hash.toList_length]
  | pubKey key => simp [raw, ofRaw, key.toList_length]

theorem raw_inj {u v : CUserID} (h : u.raw = v.raw) : u = v :=
  Option.some_injective _ (by rw [← ofRaw_raw u, h, ofRaw_raw])

theorem length_raw_le (uid : CUserID) : uid.raw.length ≤ 33 := by
  cases uid with
  | regId height index => exact (length_raw_regId height index).2.trans (by norm_num)
  | _ => simp [raw]

/-- Modelled from the spec: `ss >> uid`, the id's bytes behind their length. -/
def unserialize (s : List UInt8) : Option (CUserID × List UInt8) :=
  (readBytes s).bind fun (bytes, rest) => (ofRaw bytes).map (·, rest)

theorem unserialize_serialize (uid : CUserID) (rest : List UInt8) :
    unserialize (uid.serialize ++ rest) = some (uid, rest) := by
  have h := (length_raw_le uid).trans (by decide : 33 ≤ MAX_SIZE)
  simp [unserialize, serialize, readBytes_serBytes h, ofRaw_raw]

theorem serialize_selfDelimiting : SelfDelimiting serialize := by
  intro u v r s h
  have hu := (length_raw_le u).trans_lt (by norm_num : 33 < 2 ^ 64)
  have hv := (length_raw_le v).trans_lt (by norm_num : 33 < 2 ^ 64)
  obtain ⟨h₁, h₂⟩ := serBytes_append_inj hu hv h
  exact ⟨raw_inj h₁, h₂⟩

end CUserID

/-- The fields of `CBaseTx` a coin transfer writes; the type is written as `uint8_t(nTxType)`. -/
structure CBaseTx where
  nTxType : UInt8
  nVersion : Int
  validHeight : Int
  txUid : CUserID
  feeSymbol : CString
  llFees : UInt64
  signature : CString

structure CBaseCoinTransferTx extends CBaseTx where
  toUid : CUserID
  coinAmount : UInt64
  memo : CString

@[ext]
structure SingleTransfer where
  toUid : CUserID
  coinSymbol : CString
  coinAmount : UInt64

structure CCoinTransferTx extends CBaseTx where
  transfers : CVector SingleTransfer
  memo : CString

def SingleTransfer.serialize (t : SingleTransfer) : List UInt8 :=
  t.toUid.serialize ++ serString t.coinSymbol ++ writeVarInt t.coinAmount.toNat

def SingleTransfer.unserialize (s : List UInt8) : Option (SingleTransfer × List UInt8) := do
  let (toUid, s) ← CUserID.unserialize s
  let (coinSymbol, s) ← readString s
  let (coinAmount, s) ← readVarIntAux 0 s
  pure (⟨toUid, coinSymbol, coinAmount.toUInt64⟩, s)

theorem SingleTransfer.unserialize_serialize {t : SingleTransfer}
    (h : t.coinSymbol.toList.length ≤ MAX_SIZE) (rest : List UInt8) :
    SingleTransfer.unserialize (t.serialize ++ rest) = some (t, rest) := by
  simp [unserialize, serialize, CUserID.unserialize_serialize, readString_serString h,
    readVarIntAux_writeVarInt]

theorem SingleTransfer.serialize_selfDelimiting : SelfDelimiting SingleTransfer.serialize := by
  intro a b r s h
  simp only [serialize, List.append_assoc] at h
  obtain ⟨h₁, h⟩ := CUserID.serialize_selfDelimiting _ _ _ _ h
  obtain ⟨h₂, h⟩ := serString_selfDelimiting _ _ _ _ h
  obtain ⟨h₃, h⟩ := writeVarInt_selfDelimiting _ _ _ _ h
  exact ⟨SingleTransfer.ext h₁ h₂ (UInt64.ext h₃), h⟩

namespace CBaseCoinTransferTx

/-- The bytes `ComputeSignatureHash` writes to its `CHashWriter`. -/
def signatureHashPreimage (tx : CBaseCoinTransferTx) : List UInt8 :=
  writeVarIntSigned tx.nVersion ++ [tx.nTxType] ++ writeVarIntSigned tx.validHeight ++
    tx.txUid.serialize ++ tx.toUid.serialize ++ writeVarInt tx.llFees.toNat ++
    writeVarInt tx.coinAmount.toNat ++ serString tx.memo

/-- `ComputeSignatureHash(true)`, the hash of the preimage (`sigHash` caches it). -/
def computeSignatureHash {β : Type} (hash : List UInt8 → β) (tx : CBaseCoinTransferTx) : β :=
  hash tx.signatureHashPreimage

def serialize (tx : CBaseCoinTransferTx) : List UInt8 :=
  writeVarIntSigned tx.nVersion ++ writeVarIntSigned tx.validHeight ++ tx.txUid.serialize ++
    tx.toUid.serialize ++ writeVarInt tx.llFees.toNat ++ writeVarInt tx.coinAmount.toNat ++
    serString tx.memo ++ serString tx.signature


/-- `IMPLEMENT_SERIALIZE`, reading into `tx`: the type and the fee symbol are not on the wire and
stay `tx`'s, and each `int32_t` is read as the value of its `VARINT`. -/
def unserialize (tx : CBaseCoinTransferTx) (s : List UInt8) :
    Option (CBaseCoinTransferTx × List UInt8) := do
  let (nVersion, s) ← readVarIntAux 0 s
  let (validHeight, s) ← readVarIntAux 0 s
  let (txUid, s) ← CUserID.unserialize s
  let (toUid, s) ← CUserID.unserialize s
  let (llFees, s) ← readVarIntAux 0 s
  let (coinAmount, s) ← readVarIntAux 0 s
  let (memo, s) ← readString s
  let (signature, s) ← readString s
  pure ({ tx with
    nVersion := nVersion
    validHeight := validHeight
    txUid := txUid
    toUid := toUid
    llFees := llFees.toUInt64
    coinAmount := coinAmount.toUInt64
    memo := memo
    signature := signature }, s)

/-- Every string `serialize` writes has a size `ReadCompactSize` accepts. -/
def FitsMaxSize (tx : CBaseCoinTransferTx) : Prop :=
  tx.memo.toList.length ≤ MAX_SIZE ∧ tx.signature.toList.length ≤ MAX_SIZE

instance : DecidablePred FitsMaxSize := fun _ => inferInstanceAs (Decidable (_ ∧ _))

theorem unserialize_serialize {tx : CBaseCoinTransferTx} (hv : 0 ≤ tx.nVersion)
    (hh : 0 ≤ tx.validHeight) (hsize : tx.FitsMaxSize) (base : CBaseCoinTransferTx)
    (rest : List UInt8) :
    base.unserialize (tx.serialize ++ rest) =
      some ({ tx with nTxType := base.nTxType, feeSymbol := base.feeSymbol }, rest) := by
  simp only [unserialize, serialize, writeVarIntSigned_of_nonneg hv, writeVarIntSigned_of_nonneg hh,
    List.append_assoc, readVarIntAux_writeVarInt, Option.pure_def, Option.bind_eq_bind,
    Option.some_bind, Int.toNat_of_nonneg hv, Int.toNat_of_nonneg hh, CUserID.unserialize_serialize,
    toUInt64_toNat, readString_serString hsize.1, readString_serString hsize.2]

/-- Agreement on every field `serialize` writes but the signature, and on the type. -/
def SameSignedFields (tx tx' : CBaseCoinTransferTx) : Prop :=
  tx.nVersion = tx'.nVersion ∧ tx.nTxType = tx'.nTxType ∧ tx.validHeight = tx'.validHeight ∧
    tx.txUid = tx'.txUid ∧ tx.toUid = tx'.toUid ∧ tx.llFees = tx'.llFees ∧
    tx.coinAmount = tx'.coinAmount ∧ tx.memo = tx'.memo

theorem serialize_eq_of_sameSignedFields {tx tx' : CBaseCoinTransferTx}
    (h : SameSignedFields tx tx') (hsig : tx.signature = tx'.signature) :
    tx.serialize = tx'.serialize := by
  obtain ⟨h₁, -, h₃, h₄, h₅, h₆, h₇, h₈⟩ := h
  simp only [serialize, h₁, h₃, h₄, h₅, h₆, h₇, h₈, hsig]

theorem sameSignedFields_of_preimage {tx tx' : CBaseCoinTransferTx} (hv : 0 ≤ tx.nVersion)
    (hh : 0 ≤ tx.validHeight) (hv' : 0 ≤ tx'.nVersion) (hh' : 0 ≤ tx'.validHeight)
    (h : tx.signatureHashPreimage = tx'.signatureHashPreimage) : SameSignedFields tx tx' := by
  simp only [signatureHashPreimage, List.append_assoc] at h
  obtain ⟨h₁, h⟩ := writeVarIntSigned_append_inj hv hv' h
  obtain ⟨h₂, h⟩ := byte_selfDelimiting _ _ _ _ h
  obtain ⟨h₃, h⟩ := writeVarIntSigned_append_inj hh hh' h
  obtain ⟨h₄, h⟩ := CUserID.serialize_selfDelimiting _ _ _ _ h
  obtain ⟨h₅, h⟩ := CUserID.serialize_selfDelimiting _ _ _ _ h
  obtain ⟨h₆, h⟩ := writeVarInt_selfDelimiting _ _ _ _ h
  obtain ⟨h₇, h⟩ := writeVarInt_selfDelimiting _ _ _ _ h
  obtain ⟨h₈, -⟩ := serString_selfDelimiting _ _ [] [] (by simpa using h)
  exact ⟨h₁, h₂, h₃, h₄, h₅, UInt64.ext h₆, UInt64.ext h₇, h₈⟩

end CBaseCoinTransferTx

namespace CCoinTransferTx

def signatureHashPreimage (tx : CCoinTransferTx) : List UInt8 :=
  writeVarIntSigned tx.nVersion ++ [tx.nTxType] ++ writeVarIntSigned tx.validHeight ++
    tx.txUid.serialize ++ serString tx.feeSymbol ++ writeVarInt tx.llFees.toNat ++
    serVector SingleTransfer.serialize tx.transfers ++ serString tx.memo

def computeSignatureHash {β : Type} (hash : List UInt8 → β) (tx : CCoinTransferTx) : β :=
  hash tx.signatureHashPreimage

def serialize (tx : CCoinTransferTx) : List UInt8 :=
  writeVarIntSigned tx.nVersion ++ writeVarIntSigned tx.validHeight ++ tx.txUid.serialize ++
    serString tx.feeSymbol ++ writeVarInt tx.llFees.toNat ++
    serVector SingleTransfer.serialize tx.transfers ++ serString tx.memo ++ serString tx.signature


/-- `IMPLEMENT_SERIALIZE`, reading into `tx`: the type is not on the wire and stays `tx`'s. -/
def unserialize (tx : CCoinTransferTx) (s : List UInt8) :
    Option (CCoinTransferTx × List UInt8) := do
  let (nVersion, s) ← readVarIntAux 0 s
  let (validHeight, s) ← readVarIntAux 0 s
  let (txUid, s) ← CUserID.unserialize s
  let (feeSymbol, s) ← readString s
  let (llFees, s) ← readVarIntAux 0 s
  let (transfers, s) ← readVector SingleTransfer.unserialize s
  let (memo, s) ← readString s
  let (signature, s) ← readString s
  pure ({ tx with
    nVersion := nVersion
    validHeight := validHeight
    txUid := txUid
    feeSymbol := feeSymbol
    llFees := llFees.toUInt64
    transfers := transfers
    memo := memo
    signature := signature }, s)

/-- Every string and vector `serialize` writes, the legs' coin symbols included, has a size
`ReadCompactSize` accepts. -/
def FitsMaxSize (tx : CCoinTransferTx) : Prop :=
  tx.feeSymbol.toList.length ≤ MAX_SIZE ∧ tx.transfers.toList.length ≤ MAX_SIZE ∧
    (∀ t ∈ tx.transfers.toList, t.coinSymbol.toList.length ≤ MAX_SIZE) ∧
    tx.memo.toList.length ≤ MAX_SIZE ∧ tx.signature.toList.length ≤ MAX_SIZE

instance : DecidablePred FitsMaxSize := fun _ => inferInstanceAs (Decidable (_ ∧ _))

theorem unserialize_serialize {tx : CCoinTransferTx} (hv : 0 ≤ tx.nVersion)
    (hh : 0 ≤ tx.validHeight) (hsize : tx.FitsMaxSize) (base : CCoinTransferTx)
    (rest : List UInt8) :
    base.unserialize (tx.serialize ++ rest) = some ({ tx with nTxType := base.nTxType }, rest) := by
  obtain ⟨hfee, hlegs, hsymbols, hmemo, hsig⟩ := hsize
  simp only [unserialize, serialize, writeVarIntSigned_of_nonneg hv, writeVarIntSigned_of_nonneg hh,
    List.append_assoc, readVarIntAux_writeVarInt, Option.pure_def, Option.bind_eq_bind,
    Option.some_bind, Int.toNat_of_nonneg hv, Int.toNat_of_nonneg hh, CUserID.unserialize_serialize,
    readString_serString hfee, readString_serString hmemo, readString_serString hsig,
    readVector_serVector hlegs fun t ht => SingleTransfer.unserialize_serialize (hsymbols t ht),
    toUInt64_toNat]

/-- Agreement on every field `serialize` writes but the signature, and on the type. -/
def SameSignedFields (tx tx' : CCoinTransferTx) : Prop :=
  tx.nVersion = tx'.nVersion ∧ tx.nTxType = tx'.nTxType ∧ tx.validHeight = tx'.validHeight ∧
    tx.txUid = tx'.txUid ∧ tx.feeSymbol = tx'.feeSymbol ∧ tx.llFees = tx'.llFees ∧
    tx.transfers = tx'.transfers ∧ tx.memo = tx'.memo

theorem serialize_eq_of_sameSignedFields {tx tx' : CCoinTransferTx}
    (h : SameSignedFields tx tx') (hsig : tx.signature = tx'.signature) :
    tx.serialize = tx'.serialize := by
  obtain ⟨h₁, -, h₃, h₄, h₅, h₆, h₇, h₈⟩ := h
  simp only [serialize, h₁, h₃, h₄, h₅, h₆, h₇, h₈, hsig]

theorem sameSignedFields_of_preimage {tx tx' : CCoinTransferTx} (hv : 0 ≤ tx.nVersion)
    (hh : 0 ≤ tx.validHeight) (hv' : 0 ≤ tx'.nVersion) (hh' : 0 ≤ tx'.validHeight)
    (h : tx.signatureHashPreimage = tx'.signatureHashPreimage) : SameSignedFields tx tx' := by
  simp only [signatureHashPreimage, List.append_assoc] at h
  obtain ⟨h₁, h⟩ := writeVarIntSigned_append_inj hv hv' h
  obtain ⟨h₂, h⟩ := byte_selfDelimiting _ _ _ _ h
  obtain ⟨h₃, h⟩ := writeVarIntSigned_append_inj hh hh' h
  obtain ⟨h₄, h⟩ := CUserID.serialize_selfDelimiting _ _ _ _ h
  obtain ⟨h₅, h⟩ := serString_selfDelimiting _ _ _ _ h
  obtain ⟨h₆, h⟩ := writeVarInt_selfDelimiting _ _ _ _ h
  obtain ⟨h₇, h⟩ := serVector_selfDelimiting SingleTransfer.serialize_selfDelimiting _ _ _ _ h
  obtain ⟨h₈, -⟩ := serString_selfDelimiting _ _ [] [] (by simpa using h)
  exact ⟨h₁, h₂, h₃, h₄, h₅, UInt64.ext h₆, h₇, h₈⟩

end CCoinTransferTx

/-- Equal signature-hash preimages of two transfers of one kind, with non-negative versions and
valid heights, mean equal signed fields: every field either transaction serializes but the
signature, for any number of legs and any memo. -/
theorem signatureHashPreimage_binds_signed_fields :
    (∀ tx tx' : CBaseCoinTransferTx, 0 ≤ tx.nVersion → 0 ≤ tx.validHeight →
      0 ≤ tx'.nVersion → 0 ≤ tx'.validHeight →
      tx.signatureHashPreimage = tx'.signatureHashPreimage → tx.SameSignedFields tx') ∧
    (∀ tx tx' : CCoinTransferTx, 0 ≤ tx.nVersion → 0 ≤ tx.validHeight →
      0 ≤ tx'.nVersion → 0 ≤ tx'.validHeight →
      tx.signatureHashPreimage = tx'.signatureHashPreimage → tx.SameSignedFields tx') :=
  ⟨fun _ _ => CBaseCoinTransferTx.sameSignedFields_of_preimage,
    fun _ _ => CCoinTransferTx.sameSignedFields_of_preimage⟩

/-- Unserializing what a transfer serializes, into any object of its class, gives the transfer
back, whatever follows in the stream, when its version and valid height are non-negative and its
strings and vectors are at most `MAX_SIZE` long: every field but the type, and for
`CBaseCoinTransferTx` the fee symbol, which are not on the wire and stay the object's. -/
theorem transfer_unserialize_serialize :
    (∀ (tx base : CBaseCoinTransferTx) (rest : List UInt8), 0 ≤ tx.nVersion →
      0 ≤ tx.validHeight → tx.FitsMaxSize → base.unserialize (tx.serialize ++ rest) =
        some ({ tx with nTxType := base.nTxType, feeSymbol := base.feeSymbol }, rest)) ∧
    (∀ (tx base : CCoinTransferTx) (rest : List UInt8), 0 ≤ tx.nVersion →
      0 ≤ tx.validHeight → tx.FitsMaxSize → base.unserialize (tx.serialize ++ rest) =
        some ({ tx with nTxType := base.nTxType }, rest)) :=
  ⟨fun _ base rest hv hh hs => CBaseCoinTransferTx.unserialize_serialize hv hh hs base rest,
    fun _ base rest hv hh hs => CCoinTransferTx.unserialize_serialize hv hh hs base rest⟩

/-- A WICC transfer from RegID `100-1` to RegID `200-2` with the memo `"hi"`. -/
def sampleTransfer : CBaseCoinTransferTx where
  nTxType := 3
  nVersion := 1
  validHeight := 100
  txUid := .regId 100 1
  feeSymbol := ⟨[87, 73, 67, 67], by decide⟩
  llFees := 10000
  signature := ⟨[48, 69, 2, 33], by decide⟩
  toUid := .regId 200 2
  coinAmount := 100000000
  memo := ⟨[104, 105], by decide⟩

def sampleCoinTransfer : CCoinTransferTx where
  toCBaseTx := sampleTransfer.toCBaseTx
  transfers := ⟨[⟨.regId 200 2, ⟨[87, 73, 67, 67], by decide⟩, 100000000⟩], by decide⟩
  memo := ⟨[104, 105], by decide⟩

theorem signatureHashPreimage_binds_signed_fields_resigned :
    sampleTransfer.SameSignedFields { sampleTransfer with signature := ⟨[1], by decide⟩ } ∧
      sampleCoinTransfer.SameSignedFields
        { sampleCoinTransfer with signature := ⟨[1], by decide⟩ } :=
  ⟨signatureHashPreimage_binds_signed_fields.1 _ _ (by decide) (by decide) (by decide)
      (by decide) rfl,
    signatureHashPreimage_binds_signed_fields.2 _ _ (by decide) (by decide) (by decide)
      (by decide) rfl⟩

theorem transfer_unserialize_serialize_sample :
    sampleTransfer.unserialize (sampleTransfer.serialize ++ []) = some (sampleTransfer, []) ∧
      sampleCoinTransfer.unserialize (sampleCoinTransfer.serialize ++ []) =
        some (sampleCoinTransfer, []) :=
  ⟨transfer_unserialize_serialize.1 _ _ _ (by decide) (by decide) (by decide),
    transfer_unserialize_serialize.2 _ _ _ (by decide) (by decide) (by decide)⟩

end WaykiChain.Tx.CoinTransfer
