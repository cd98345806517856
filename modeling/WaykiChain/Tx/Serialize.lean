import Mathlib

/-! # Serialization

`serialize.h` is not in the source shown, so this module follows the spec: integers are written in
a variable-length encoding and byte strings behind their length, in the forms `serialize.h` gives
them. `VARINT` writes seven bits a byte, the most significant group first, with the high bit set on
every byte but the last and one taken off every group above the lowest, so that no two integers
share an encoding. `WriteCompactSize` writes a size below `253` as one byte and a larger one as a
marker and two, four or eight little-endian bytes; `ReadCompactSize` refuses a size not written in
its shortest form and one above `MAX_SIZE`. Each encoding is self-delimiting: it can be read back
off the front of any stream, so a concatenation of encodings determines its fields in turn.
-/

namespace WaykiChain.Tx.Serialize

variable {α : Type}

/-- Equal streams that start with two encodings start with the same value and go on alike. -/
def SelfDelimiting (enc : α → List UInt8) : Prop :=
  ∀ (a b : α) (r s : List UInt8), enc a ++ r = enc b ++ s → a = b ∧ r = s

/-- An encoding that a decoder reads back off the front of any stream is self-delimiting. -/
theorem selfDelimiting_of_dec {enc : α → List UInt8} (dec : List UInt8 → Option (α × List UInt8))
    (h : ∀ a r, dec (enc a ++ r) = some (a, r)) : SelfDelimiting enc := by
  intro a b r s hab
  have h' := h a r
  rw [hab, h] at h'
  simp only [Option.some.injEq, Prod.mk.injEq] at h'
  exact ⟨h'.1.symm, h'.2.symm⟩

theorem byte_selfDelimiting : SelfDelimiting fun b : UInt8 => [b] := fun _ _ _ _ h =>
  List.cons_eq_cons.1 h

/-! ## `VARINT` -/

/-- `(n & 0x7F) | (len ? 0x80 : 0x00)`: the low seven bits of `n`, with the high bit when `more`. -/
def varIntByte (more : Bool) (n : Nat) : UInt8 := (n % 128 + if more then 128 else 0).toUInt8

/-- `WriteVarInt`'s bytes `tmp[len], …, tmp[0]`: the group of `n` below `0x80`, behind the groups
of `(n >> 7) - 1`, all of which carry the high bit. -/
def writeVarIntAux (more : Bool) (n : Nat) : List UInt8 :=
  if n ≤ 0x7F then [varIntByte more n]
  else writeVarIntAux true (n / 128 - 1) ++ [varIntByte more n]
termination_by n
decreasing_by omega

def writeVarInt (n : Nat) : List UInt8 := writeVarIntAux false n

/-- `WriteVarInt` of an `int32_t`: a negative value is at most `0x7F`, so the loop stops at once
and writes its low seven bits. -/
def writeVarIntSigned (n : Int) : List UInt8 :=
  if 0 ≤ n then writeVarInt n.toNat else [(n % 128).toNat.toUInt8]

/-- `ReadVarInt` on an unbounded accumulator: `n = (n << 7) | (byte & 0x7F)`, plus one while the
high bit is set. -/
def readVarIntAux (n : Nat) : List UInt8 → Option (Nat × List UInt8)
  | [] => none
  | b :: rest =>
    if b.toNat < 128 then some (n * 128 + b.toNat, rest)
    else readVarIntAux (n * 128 + b.toNat % 128 + 1) rest

@[simp] theorem toNat_varIntByte_true (n : Nat) : (varIntByte true n).toNat = n % 128 + 128 :=
  UInt8.toNat_ofNat_of_lt (by simp only [if_true, UInt8.size]; omega)

@[simp] theorem toNat_varIntByte_false (n : Nat) : (varIntByte false n).toNat = n % 128 :=
  UInt8.toNat_ofNat_of_lt (by simp only [Bool.false_eq_true, if_false, UInt8.size]; omega)

theorem readVarIntAux_more (n : Nat) (rest : List UInt8) :
    readVarIntAux 0 (writeVarIntAux true n ++ rest) = readVarIntAux (n + 1) rest := by
  induction n using Nat.strong_induction_on generalizing rest with
  | _ n ih =>
    by_cases h : n ≤ 0x7F
    · rw [writeVarIntAux, if_pos h, List.singleton_append, readVarIntAux, toNat_varIntByte_true,
        if_neg (by omega)]
      congr 1
      omega
    · rw [writeVarIntAux, if_neg h, List.append_assoc, ih _ (by omega), List.singleton_append,
        readVarIntAux, toNat_varIntByte_true, if_neg (by omega)]
      congr 1
      omega

theorem readVarIntAux_writeVarInt (n : Nat) (rest : List UInt8) :
    readVarIntAux 0 (writeVarInt n ++ rest) = some (n, rest) := by
  rw [writeVarInt]
  by_cases h : n ≤ 0x7F
  · rw [writeVarIntAux, if_pos h, List.singleton_append, readVarIntAux, toNat_varIntByte_false,
      if_pos (by omega)]
    congr 2
    omega
  · rw [writeVarIntAux, if_neg h, List.append_assoc, readVarIntAux_more, List.singleton_append,
      readVarIntAux, toNat_varIntByte_false, if_pos (by omega)]
    congr 2
    omega

theorem writeVarInt_selfDelimiting : SelfDelimiting writeVarInt :=
  selfDelimiting_of_dec _ readVarIntAux_writeVarInt

theorem length_writeVarIntAux_le (k : Nat) :
    ∀ (more : Bool) (n : Nat), n < 128 ^ (k + 1) → (writeVarIntAux more n).length ≤ k + 1 := by
  induction k with
  | zero => intro more n hn; rw [writeVarIntAux, if_pos (by omega)]; simp
  | succ k ih =>
    intro more n hn
    rw [writeVarIntAux]
    split_ifs with h
    · simp
    · have : n / 128 - 1 < 128 ^ (k + 1) := by
        have := (Nat.div_lt_iff_lt_mul (by norm_num : 0 < 128)).2 (by rwa [← pow_succ])
        omega
      simpa using ih true _ this

theorem length_writeVarInt_pos (n : Nat) : 0 < (writeVarInt n).length := by
  rw [writeVarInt, writeVarIntAux]
  split_ifs <;> simp

theorem writeVarIntSigned_of_nonneg {n : Int} (h : 0 ≤ n) :
    writeVarIntSigned n = writeVarInt n.toNat := if_pos h

theorem writeVarIntSigned_append_inj {m n : Int} {r s : List UInt8} (hm : 0 ≤ m) (hn : 0 ≤ n)
    (h : writeVarIntSigned m ++ r = writeVarIntSigned n ++ s) : m = n ∧ r = s := by
  rw [writeVarIntSigned_of_nonneg hm, writeVarIntSigned_of_nonneg hn] at h
  obtain ⟨h₁, h₂⟩ := writeVarInt_selfDelimiting _ _ _ _ h
  exact ⟨by omega, h₂⟩

/-! ## `WriteCompactSize` -/

@[simp] theorem toUInt64_toNat (x : UInt64) : x.toNat.toUInt64 = x :=
  UInt64.ext (UInt64.toNat_ofNat_of_lt x.toNat_lt)

/-- `ser_writedata16/32/64`: the `k` low bytes of `n`, least significant first. -/
def leBytes : Nat → Nat → List UInt8
  | 0, _ => []
  | k + 1, n => n.toUInt8 :: leBytes k (n / 256)

def writeCompactSize (nSize : UInt64) : List UInt8 :=
  if nSize.toNat < 253 then [nSize.toNat.toUInt8]
  else if nSize.toNat ≤ 0xFFFF then 253 :: leBytes 2 nSize.toNat
  else if nSize.toNat ≤ 0xFFFFFFFF then 254 :: leBytes 4 nSize.toNat
  else 255 :: leBytes 8 nSize.toNat

def readLE : Nat → List UInt8 → Option (Nat × List UInt8)
  | 0, rest => some (0, rest)
  | _ + 1, [] => none
  | k + 1, b :: rest => (readLE k rest).map fun p => (b.toNat + 256 * p.1, p.2)

/-- `k` little-endian bytes holding a size, refused as non-canonical below `least`, the least size
`WriteCompactSize` writes in `k` bytes. -/
def readSizeLE (k least : Nat) (s : List UInt8) : Option (UInt64 × List UInt8) :=
  (readLE k s).bind fun (nSize, rest) => if nSize < least then none else some (nSize.toUInt64, rest)

/-- The marker byte of `ReadCompactSize`, then the size it announces. -/
def decodeCompactSize : List UInt8 → Option (UInt64 × List UInt8)
  | [] => none
  | chSize :: rest =>
    if chSize.toNat < 253 then some (chSize.toNat.toUInt64, rest)
    else if chSize.toNat = 253 then readSizeLE 2 253 rest
    else if chSize.toNat = 254 then readSizeLE 4 0x10000 rest
    else readSizeLE 8 0x100000000 rest

def MAX_SIZE : Nat := 0x02000000

/-- `ReadCompactSize`, which throws on a size above `MAX_SIZE`. -/
def readCompactSize (s : List UInt8) : Option (UInt64 × List UInt8) :=
  (decodeCompactSize s).bind fun (nSize, rest) =>
    if MAX_SIZE < nSize.toNat then none else some (nSize, rest)

theorem readLE_leBytes (k : Nat) :
    ∀ (n : Nat) (rest : List UInt8), readLE k (leBytes k n ++ rest) = some (n % 256 ^ k, rest) := by
  induction k with
  | zero => intro n rest; simp [leBytes, readLE, Nat.mod_one]
  | succ k ih =>
    intro n rest
    have hb : n.toUInt8.toNat = n % 256 := rfl
    rw [leBytes, List.cons_append, readLE, ih, Option.map_some', hb, pow_succ', Nat.mod_mul]

theorem readSizeLE_leBytes {k least : Nat} {x : UInt64} (hlt : x.toNat < 256 ^ k)
    (hle : least ≤ x.toNat) (rest : List UInt8) :
    readSizeLE k least (leBytes k x.toNat ++ rest) = some (x, rest) := by
  simp [readSizeLE, readLE_leBytes, Nat.mod_eq_of_lt hlt, Nat.not_lt.2 hle]

theorem decodeCompactSize_writeCompactSize (x : UInt64) (rest : List UInt8) :
    decodeCompactSize (writeCompactSize x ++ rest) = some (x, rest) := by
  have hx := x.toNat_lt
  rw [writeCompactSize]
  split_ifs with h₁ h₂ h₃
  · have hb : (x.toNat.toUInt8).toNat = x.toNat := UInt8.toNat_ofNat_of_lt (by
      simp only [UInt8.size]; omega)
    simp [decodeCompactSize, hb, h₁]
  · simpa [decodeCompactSize] using
      readSizeLE_leBytes (show x.toNat < 256 ^ 2 by omega) (show 253 ≤ x.toNat by omega) rest
  · simpa [decodeCompactSize] using
      readSizeLE_leBytes (show x.toNat < 256 ^ 4 by omega) (show 0x10000 ≤ x.toNat by omega) rest
  · simpa [decodeCompactSize] using
      readSizeLE_leBytes (show x.toNat < 256 ^ 8 by omega)
        (show 0x100000000 ≤ x.toNat by omega) rest

theorem readCompactSize_writeCompactSize {x : UInt64} (h : x.toNat ≤ MAX_SIZE) (rest : List UInt8) :
    readCompactSize (writeCompactSize x ++ rest) = some (x, rest) := by
  simp [readCompactSize, decodeCompactSize_writeCompactSize, Nat.not_lt.2 h]

theorem writeCompactSize_selfDelimiting : SelfDelimiting writeCompactSize :=
  selfDelimiting_of_dec _ decodeCompactSize_writeCompactSize

/-! ## Strings and vectors -/

/-- A `std::vector` (a `std::string` for bytes): its elements, fewer than `2 ^ 64` since its
`size()` is a `size_t`. -/
@[ext]
structure CVector (α : Type) where
  toList : List α
  size_lt : toList.length < 2 ^ 64

abbrev CString := CVector UInt8

def CVector.size (v : CVector α) : UInt64 := v.toList.length.toUInt64

theorem CVector.toNat_size (v : CVector α) : v.size.toNat = v.toList.length :=
  UInt64.toNat_ofNat_of_lt v.size_lt

def serBytes (bytes : List UInt8) : List UInt8 := writeCompactSize bytes.length.toUInt64 ++ bytes

def serString (s : CString) : List UInt8 := serBytes s.toList

/-- `ss << v`: the size, then each element. -/
def serVector (ser : α → List UInt8) (v : CVector α) : List UInt8 :=
  writeCompactSize v.size ++ v.toList.flatMap ser

theorem serBytes_append_inj {a b r s : List UInt8} (ha : a.length < 2 ^ 64) (hb : b.length < 2 ^ 64)
    (h : serBytes a ++ r = serBytes b ++ s) : a = b ∧ r = s := by
  rw [serBytes, serBytes, List.append_assoc, List.append_assoc] at h
  obtain ⟨hsize, h⟩ := writeCompactSize_selfDelimiting _ _ _ _ h
  have hlen : a.length = b.length := by
    rw [← UInt64.toNat_ofNat_of_lt ha, ← UInt64.toNat_ofNat_of_lt hb]
    exact congrArg UInt64.toNat hsize
  exact List.append_inj h hlen

theorem serString_selfDelimiting : SelfDelimiting serString := by
  intro a b r s h
  obtain ⟨h₁, h₂⟩ := serBytes_append_inj a.size_lt b.size_lt h
  exact ⟨CVector.ext h₁, h₂⟩

theorem flatMap_append_inj {ser : α → List UInt8} (hser : SelfDelimiting ser) :
    ∀ {l l' : List α} {r s : List UInt8}, l.length = l'.length →
      l.flatMap ser ++ r = l'.flatMap ser ++ s → l = l' ∧ r = s
  | [], [], _, _, _, h => ⟨rfl, by simpa using h⟩
  | x :: l, x' :: l', r, s, hlen, h => by
    simp only [List.flatMap_cons, List.append_assoc] at h
    obtain ⟨rfl, htail⟩ := hser _ _ _ _ h
    obtain ⟨rfl, rfl⟩ := flatMap_append_inj hser (by simpa using hlen) htail
    exact ⟨rfl, rfl⟩

theorem serVector_selfDelimiting {ser : α → List UInt8} (hser : SelfDelimiting ser) :
    SelfDelimiting (serVector ser) := by
  intro a b r s h
  rw [serVector, serVector, List.append_assoc, List.append_assoc] at h
  obtain ⟨hsize, h⟩ := writeCompactSize_selfDelimiting _ _ _ _ h
  have hlen : a.toList.length = b.toList.length := by
    rw [← a.toNat_size, ← b.toNat_size, hsize]
  obtain ⟨h₁, h₂⟩ := flatMap_append_inj hser hlen h
  exact ⟨CVector.ext h₁, h₂⟩

/-! ## Reading back

`Unserialize` reads the fields in the order `IMPLEMENT_SERIALIZE` lists them, with `ReadVarInt`,
`ReadCompactSize` and the string and vector readers of `serialize.h`; a string or a vector is read
back when its size is at most `MAX_SIZE`.
-/

def readBytes (s : List UInt8) : Option (List UInt8 × List UInt8) :=
  (readCompactSize s).bind fun (n, rest) =>
    if n.toNat ≤ rest.length then some (rest.take n.toNat, rest.drop n.toNat) else none

def readString (s : List UInt8) : Option (CString × List UInt8) :=
  (readBytes s).bind fun (bytes, rest) =>
    if h : bytes.length < 2 ^ 64 then some (⟨bytes, h⟩, rest) else none

def readElems (read : List UInt8 → Option (α × List UInt8)) :
    Nat → List UInt8 → Option (List α × List UInt8)
  | 0, s => some ([], s)
  | n + 1, s => (read s).bind fun (a, rest) =>
    (readElems read n rest).map fun (l, rest) => (a :: l, rest)

/-- `ss >> v`: the size, then as many elements. -/
def readVector (read : List UInt8 → Option (α × List UInt8)) (s : List UInt8) :
    Option (CVector α × List UInt8) :=
  (readCompactSize s).bind fun (n, rest) => (readElems read n.toNat rest).bind fun (l, rest) =>
    if h : l.length < 2 ^ 64 then some (⟨l, h⟩, rest) else none

theorem readBytes_serBytes {bytes : List UInt8} (h : bytes.length ≤ MAX_SIZE) (rest : List UInt8) :
    readBytes (serBytes bytes ++ rest) = some (bytes, rest) := by
  have hn : bytes.length.toUInt64.toNat = bytes.length :=
    UInt64.toNat_ofNat_of_lt (h.trans_lt (by decide))
  simp [serBytes, readBytes, readCompactSize_writeCompactSize (hn.trans_le h), hn]

theorem readString_serString {str : CString} (h : str.toList.length ≤ MAX_SIZE)
    (rest : List UInt8) : readString (serString str ++ rest) = some (str, rest) := by
  simpa [readString, serString, readBytes_serBytes h] using str.size_lt

theorem readElems_flatMap {ser : α → List UInt8} {read : List UInt8 → Option (α × List UInt8)} :
    ∀ (l : List α), (∀ a ∈ l, ∀ rest, read (ser a ++ rest) = some (a, rest)) →
      ∀ (rest : List UInt8), readElems read l.length (l.flatMap ser ++ rest) = some (l, rest)
  | [], _, _ => rfl
  | a :: l, h, rest => by
    simp [readElems, List.append_assoc, h a (List.mem_cons_self _ _),
      readElems_flatMap l fun b hb => h b (List.mem_cons_of_mem _ hb)]

theorem readVector_serVector {ser : α → List UInt8} {read : List UInt8 → Option (α × List UInt8)}
    {v : CVector α} (hv : v.toList.length ≤ MAX_SIZE)
    (h : ∀ a ∈ v.toList, ∀ rest, read (ser a ++ rest) = some (a, rest)) (rest : List UInt8) :
    readVector read (serVector ser v ++ rest) = some (v, rest) := by
  simpa [readVector, serVector, readCompactSize_writeCompactSize (v.toNat_size.trans_le hv),
    CVector.toNat_size, readElems_flatMap _ h] using v.size_lt

end WaykiChain.Tx.Serialize
