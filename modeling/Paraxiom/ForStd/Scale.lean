import Mathlib

/-!
# SCALE codec

The fragment of the SCALE wire format that fixed-width integers, fixed and bounded
byte strings, `Vec<u8>` and tuples need. A decoder reads a value off the front of its
input and returns the unread rest; trailing bytes are not an error.

`Codec` pairs an encoder with its decoder and `LawfulCodec` is the round trip
`decode (encode a ++ rest) = some (a, rest)`, which also gives that encodings are
injective.
-/

namespace Scale

/-- A byte string. -/
abbrev Bytes := List UInt8

/-! ## Little-endian numbers -/

/-- The `width` least significant bytes of `n`, least significant first. -/
def writeLE : Nat → Nat → Bytes
  | 0, _ => []
  | width + 1, n => UInt8.ofNat (n % 256) :: writeLE width (n / 256)

/-- The number written by the bytes, least significant first. -/
def readLE : Bytes → Nat
  | [] => 0
  | b :: bs => b.toNat + 256 * readLE bs

/-- As many bytes are written as were asked for. -/
@[simp] theorem length_writeLE (width n : Nat) : (writeLE width n).length = width := by
  induction width generalizing n with
  | zero => rfl
  | succ width ih => simp only [writeLE, List.length_cons, ih]

/-- Reading gives back what the bytes had room for. -/
theorem readLE_writeLE (width n : Nat) :
    readLE (writeLE width n) = n % 256 ^ width := by
  induction width generalizing n with
  | zero => simp [writeLE, readLE, Nat.mod_one]
  | succ width ih =>
    have hbyte : (UInt8.ofNat (n % 256)).toNat = n % 256 :=
      UInt8.toNat_ofNat_of_lt (Nat.mod_lt n (by decide))
    rw [writeLE, readLE, ih, hbyte, Nat.pow_succ', Nat.mod_mul]

/-- Below `256 ^ width` nothing is cut off. -/
theorem readLE_writeLE_of_lt {width n : Nat} (h : n < 256 ^ width) :
    readLE (writeLE width n) = n := by
  rw [readLE_writeLE, Nat.mod_eq_of_lt h]

/-- Byte strings of one length are told apart by the number they write. -/
theorem readLE_inj {a b : Bytes} (hlen : a.length = b.length) (h : readLE a = readLE b) :
    a = b := by
  induction a generalizing b with
  | nil => exact (List.length_eq_zero_iff.mp hlen.symm).symm
  | cons x a ih =>
    cases b with
    | nil => exact nomatch hlen
    | cons y b =>
      simp only [readLE] at h
      have hx := x.toNat_lt
      have hy := y.toNat_lt
      rw [UInt8.toNat_inj.mp (show x.toNat = y.toNat by omega),
        ih (Nat.succ.inj hlen) (by omega)]

/-- Read exactly `width` bytes. -/
def take (width : Nat) (bs : Bytes) : Option (Bytes × Bytes) :=
  if width ≤ bs.length then some (bs.splitAt width) else none

/-- Bytes of the right number are taken off the front. -/
theorem take_append {width : Nat} {l : Bytes} (h : l.length = width) (rest : Bytes) :
    take width (l ++ rest) = some (l, rest) := by
  subst h
  simp [take, List.splitAt_eq]

/-- A successful read splits its input. -/
theorem take_eq_some {width : Nat} {bs l rest : Bytes} (h : take width bs = some (l, rest)) :
    bs = l ++ rest ∧ l.length = width := by
  unfold take at h
  split at h
  · rename_i hle
    simp only [List.splitAt_eq, Option.some.injEq, Prod.mk.injEq] at h
    obtain ⟨rfl, rfl⟩ := h
    exact ⟨(List.take_append_drop width bs).symm, List.length_take_of_le hle⟩
  · exact nomatch h

/-- Reading fails exactly on inputs that are too short. -/
theorem take_isSome (width : Nat) (bs : Bytes) : (take width bs).isSome ↔ width ≤ bs.length := by
  unfold take
  split <;> simp_all

/-! ## Codecs -/

/-- A type with an encoder and a decoder that returns the unread rest. -/
class Codec (α : Type) where
  encode : α → Bytes
  decode : Bytes → Option (α × Bytes)

export Codec (encode decode)

/-- The decoder reads back exactly what the encoder wrote. -/
class LawfulCodec (α : Type) [Codec α] : Prop where
  decode_encode_append (a : α) (rest : Bytes) : decode (encode a ++ rest) = some (a, rest)

export LawfulCodec (decode_encode_append)

section Lawful

variable {α : Type} [Codec α] [LawfulCodec α]

/-- Nothing is left of an encoding. -/
theorem decode_encode (a : α) : decode (encode a) = some (a, ([] : Bytes)) := by
  simpa using decode_encode_append a []

/-- No encoding is a proper prefix of another. -/
theorem encode_append_inj {a b : α} {s t : Bytes} (h : encode a ++ s = encode b ++ t) :
    a = b ∧ s = t := by
  have hdec := decode_encode_append a s
  rw [h, decode_encode_append b t] at hdec
  simp only [Option.some.injEq, Prod.mk.injEq] at hdec
  exact ⟨hdec.1.symm, hdec.2.symm⟩

/-- An encoding tells what was encoded. -/
theorem encode_injective : Function.Injective (encode : α → Bytes) := by
  intro a b h
  exact (encode_append_inj (s := []) (t := []) (by rw [h])).1

end Lawful

instance {α β : Type} [Codec α] [Codec β] : Codec (α × β) where
  encode p := encode p.1 ++ encode p.2
  decode bs := do
    let (a, bs) ← decode bs
    let (b, bs) ← decode bs
    return ((a, b), bs)

/-- The components are decoded one after the other. -/
theorem decode_prod_eq_some {α β : Type} [Codec α] [Codec β] {bs rest : Bytes} {p : α × β} :
    decode bs = some (p, rest) ↔
      ∃ bs', decode bs = some (p.1, bs') ∧ decode bs' = some (p.2, rest) := by
  show (decode bs >>= fun q : α × Bytes => decode q.2 >>= fun q' : β × Bytes =>
    some ((q.1, q'.1), q'.2)) = _ ↔ _
  simp only [Option.bind_eq_bind, Option.bind_eq_some_iff, Option.some.injEq, Prod.mk.injEq]
  constructor
  · rintro ⟨⟨a, bs'⟩, ha, ⟨b, rest'⟩, hb, rfl, rfl⟩
    exact ⟨bs', ha, hb⟩
  · rintro ⟨bs', ha, hb⟩
    exact ⟨(p.1, bs'), ha, (p.2, rest), hb, rfl, rfl⟩

instance {α β : Type} [Codec α] [Codec β] [LawfulCodec α] [LawfulCodec β] :
    LawfulCodec (α × β) where
  decode_encode_append p rest := by
    simp only [decode, encode, List.append_assoc]
    simp [decode_encode_append]

instance : Codec UInt32 where
  encode n := writeLE 4 n.toNat
  decode bs := (take 4 bs).map fun (l, rest) => (UInt32.ofNat (readLE l), rest)

instance : LawfulCodec UInt32 where
  decode_encode_append n rest := by
    simp only [decode, encode, take_append (length_writeLE 4 n.toNat), Option.map_some]
    rw [readLE_writeLE_of_lt (by simpa using n.toNat_lt), UInt32.ofNat_toNat]

instance : Codec UInt64 where
  encode n := writeLE 8 n.toNat
  decode bs := (take 8 bs).map fun (l, rest) => (UInt64.ofNat (readLE l), rest)

instance : LawfulCodec UInt64 where
  decode_encode_append n rest := by
    simp only [decode, encode, take_append (length_writeLE 8 n.toNat), Option.map_some]
    rw [readLE_writeLE_of_lt (by simpa using n.toNat_lt), UInt64.ofNat_toNat]

/-- Four bytes, whatever the value. -/
@[simp] theorem length_encode_uint32 (n : UInt32) : (encode n).length = 4 :=
  length_writeLE 4 n.toNat

/-- And eight. -/
@[simp] theorem length_encode_uint64 (n : UInt64) : (encode n).length = 8 :=
  length_writeLE 8 n.toNat

/-- The parts of a pair follow each other without a mark. -/
@[simp] theorem length_encode_prod {α β : Type} [Codec α] [Codec β] (a : α) (b : β) :
    (encode (a, b)).length = (encode a).length + (encode b).length :=
  List.length_append

/-- A `u32` is read exactly from inputs of at least four bytes. -/
theorem decode_uint32_isSome (bs : Bytes) :
    (decode (α := UInt32) bs).isSome ↔ 4 ≤ bs.length := by
  simp only [decode, Option.isSome_map]
  exact take_isSome 4 bs

/-! ## Compact lengths -/

/-- The compact form of a length: the two low bits of the first byte give the width. -/
def writeCompact (n : Nat) : Bytes :=
  if n < 2 ^ 6 then writeLE 1 (4 * n)
  else if n < 2 ^ 14 then writeLE 2 (4 * n + 1)
  else if n < 2 ^ 30 then writeLE 4 (4 * n + 2)
  else 3 :: writeLE 4 n

/-- Read a compact `u32`. A length that a narrower form could have carried is rejected. -/
def readCompact : Bytes → Option (Nat × Bytes)
  | [] => none
  | b :: bs =>
    if b.toNat % 4 = 0 then some (b.toNat / 4, bs)
    else if b.toNat % 4 = 1 then do
      let (l, rest) ← take 1 bs
      if 2 ^ 6 ≤ readLE (b :: l) / 4 then some (readLE (b :: l) / 4, rest) else none
    else if b.toNat % 4 = 2 then do
      let (l, rest) ← take 3 bs
      if 2 ^ 14 ≤ readLE (b :: l) / 4 then some (readLE (b :: l) / 4, rest) else none
    else if b.toNat / 4 = 0 then do
      let (l, rest) ← take 4 bs
      if 2 ^ 30 ≤ readLE l then some (readLE l, rest) else none
    else none

/-- The number of bytes of the compact form. -/
def compactLength (n : Nat) : Nat :=
  if n < 2 ^ 6 then 1 else if n < 2 ^ 14 then 2 else if n < 2 ^ 30 then 4 else 5

/-- One byte below 2^6, two below 2^14, and four at least from there on. -/
theorem compactLength_cases (n : Nat) :
    n < 2 ^ 6 ∧ compactLength n = 1 ∨ 2 ^ 6 ≤ n ∧ n < 2 ^ 14 ∧ compactLength n = 2 ∨
      2 ^ 14 ≤ n ∧ 4 ≤ compactLength n := by
  unfold compactLength
  split
  · omega
  · split
    · omega
    · split <;> omega

/-- A compact number is as long as announced. -/
theorem length_writeCompact (n : Nat) : (writeCompact n).length = compactLength n := by
  unfold writeCompact compactLength
  split
  · exact length_writeLE 1 _
  · split
    · exact length_writeLE 2 _
    · split
      · exact length_writeLE 4 _
      · rw [List.length_cons, length_writeLE]

/-- Bytes hold numbers below their range. -/
theorem readLE_lt (bs : Bytes) : readLE bs < 256 ^ bs.length := by
  induction bs with
  | nil => simp [readLE]
  | cons b bs ih =>
    have hb : b.toNat < 256 := b.toNat_lt
    rw [readLE, List.length_cons, Nat.pow_succ']
    omega

/-- The first byte of a little-endian number carries its residue mod 256. -/
private theorem toNat_ofNat_mod (n : Nat) : (UInt8.ofNat (n % 256)).toNat = n % 256 :=
  UInt8.toNat_ofNat_of_lt (Nat.mod_lt n (by decide))

/-- A compact number is read back, with what follows it. -/
theorem readCompact_writeCompact {n : Nat} (hn : n < 2 ^ 32) (rest : Bytes) :
    readCompact (writeCompact n ++ rest) = some (n, rest) := by
  unfold writeCompact
  split
  · -- one byte
    rename_i h6
    simp only [writeLE, List.cons_append, List.nil_append, readCompact, toNat_ofNat_mod]
    rw [if_pos (by omega)]
    congr 2; omega
  · rename_i h6
    split
    · -- two bytes, the first of which carries the width
      rename_i h14
      have hval : readLE (writeLE 2 (4 * n + 1)) = 4 * n + 1 :=
        readLE_writeLE_of_lt (by omega)
      rw [writeLE] at hval ⊢
      simp only [List.cons_append, readCompact, toNat_ofNat_mod,
        take_append (length_writeLE 1 _), Option.bind_eq_bind, Option.bind_some, hval]
      rw [if_neg (by omega), if_pos (by omega), if_pos (by omega)]
      congr 2; omega
    · rename_i h14
      split
      · -- four bytes
        rename_i h30
        have hval : readLE (writeLE 4 (4 * n + 2)) = 4 * n + 2 :=
          readLE_writeLE_of_lt (by omega)
        rw [writeLE] at hval ⊢
        simp only [List.cons_append, readCompact, toNat_ofNat_mod,
          take_append (length_writeLE 3 _), Option.bind_eq_bind, Option.bind_some, hval]
        rw [if_neg (by omega), if_neg (by omega), if_pos (by omega), if_pos (by omega)]
        congr 2; omega
      · -- a marker byte and four bytes
        rename_i h30
        have hthree : (3 : UInt8).toNat = 3 := rfl
        have hval : readLE (writeLE 4 n) = n := readLE_writeLE_of_lt (by omega)
        simp only [List.cons_append, readCompact, hthree,
          take_append (length_writeLE 4 _), Option.bind_eq_bind, Option.bind_some, hval]
        rw [if_neg (by decide), if_neg (by decide), if_neg (by decide), if_pos (by decide),
          if_pos (Nat.not_lt.mp h30)]

/-- A wide form splits its input, and its value is large enough to need it. -/
private theorem takeWide_eq_some {width least n : Nat} (value : Bytes → Nat) {bs rest : Bytes}
    (h : (do
      let (l, rest) ← take width bs
      if least ≤ value l then some (value l, rest) else none) = some (n, rest)) :
    ∃ l, bs = l ++ rest ∧ l.length = width ∧ least ≤ value l ∧ n = value l := by
  simp only [Option.bind_eq_bind, Option.bind_eq_some_iff] at h
  obtain ⟨⟨l, r⟩, htake, h⟩ := h
  obtain ⟨rfl, hlen⟩ := take_eq_some htake
  dsimp only at h
  split at h
  · rename_i hleast
    simp only [Option.some.injEq, Prod.mk.injEq] at h
    obtain ⟨rfl, rfl⟩ := h
    exact ⟨l, rfl, hlen, hleast, rfl⟩
  · exact nomatch h

/-- A compact length occupies exactly the bytes its value calls for: the decoder accepts
    no other form. -/
theorem readCompact_eq_some {bs rest : Bytes} {n : Nat} (h : readCompact bs = some (n, rest)) :
    ∃ l, bs = l ++ rest ∧ l.length = compactLength n := by
  cases bs with
  | nil => exact nomatch h
  | cons b bs =>
    have hb : b.toNat < 256 := b.toNat_lt
    simp only [readCompact] at h
    split at h
    · -- one byte
      simp only [Option.some.injEq, Prod.mk.injEq] at h
      obtain ⟨rfl, rfl⟩ := h
      refine ⟨[b], rfl, ?_⟩
      rw [compactLength, if_pos (by omega)]; rfl
    · split at h
      · -- two bytes
        obtain ⟨l, rfl, hlen, hleast, rfl⟩ := takeWide_eq_some (fun l => readLE (b :: l) / 4) h
        have hlt := readLE_lt (b :: l)
        rw [List.length_cons, hlen] at hlt
        refine ⟨b :: l, rfl, ?_⟩
        rw [List.length_cons, hlen, compactLength, if_neg (by omega), if_pos (by omega)]
      · split at h
        · -- four bytes
          obtain ⟨l, rfl, hlen, hleast, rfl⟩ := takeWide_eq_some (fun l => readLE (b :: l) / 4) h
          have hlt := readLE_lt (b :: l)
          rw [List.length_cons, hlen] at hlt
          refine ⟨b :: l, rfl, ?_⟩
          rw [List.length_cons, hlen, compactLength, if_neg (by omega), if_neg (by omega),
            if_pos (by omega)]
        · split at h
          · -- a marker byte and four bytes
            obtain ⟨l, rfl, hlen, hleast, rfl⟩ := takeWide_eq_some readLE h
            refine ⟨b :: l, rfl, ?_⟩
            rw [List.length_cons, hlen, compactLength, if_neg (by omega), if_neg (by omega),
              if_neg (by omega)]
          · exact nomatch h

/-! ## Byte strings -/

/-- `Vec<u8>`: a compact length, then the bytes. -/
instance : Codec Bytes where
  encode l := writeCompact l.length ++ l
  decode bs := do
    let (n, bs) ← readCompact bs
    take n bs

/-- Bytes are read back, with what follows them. -/
theorem decode_encode_bytes {l : Bytes} (h : l.length < 2 ^ 32) (rest : Bytes) :
    decode (encode l ++ rest) = some (l, rest) := by
  simp only [decode, encode, List.append_assoc, readCompact_writeCompact h, Option.bind_eq_bind,
    Option.bind_some, take_append]

/-- Bytes come after their length. -/
@[simp] theorem length_encode_bytes (l : Bytes) :
    (encode l).length = compactLength l.length + l.length := by
  simp [encode, length_writeCompact]

/-- Decoding a `Vec<u8>` consumes exactly as many bytes as encoding the result produces. -/
theorem decode_bytes_eq_some {bs l rest : Bytes} (h : decode bs = some (l, rest)) :
    bs.length = (encode l).length + rest.length := by
  simp only [decode, Option.bind_eq_bind, Option.bind_eq_some_iff] at h
  obtain ⟨⟨n, bs'⟩, hn, htake⟩ := h
  obtain ⟨hdr, rfl, hhdr⟩ := readCompact_eq_some hn
  obtain ⟨rfl, rfl⟩ := take_eq_some htake
  simp only [List.length_append, hhdr, length_encode_bytes, Nat.add_assoc]

/-- A byte array of fixed length, such as `[u8; 32]`. -/
structure FixedBytes (size : Nat) where
  toList : Bytes
  length_eq : toList.length = size
deriving DecidableEq

/-- A fixed array is written as its bytes, with no length. -/
instance {size : Nat} : Codec (FixedBytes size) where
  encode a := a.toList
  decode bs :=
    match h : take size bs with
    | some (l, rest) => some (⟨l, (take_eq_some h).2⟩, rest)
    | none => none

instance {size : Nat} : LawfulCodec (FixedBytes size) where
  decode_encode_append a rest := by
    simp only [decode, encode]
    split
    · rename_i l r h
      rw [take_append a.length_eq] at h
      cases h; rfl
    · rename_i h
      rw [take_append a.length_eq] at h
      exact nomatch h

/-- An array is its bytes. -/
@[simp] theorem length_encode_fixedBytes {size : Nat} (a : FixedBytes size) :
    (encode a).length = size := a.length_eq

/-- `BoundedVec<u8, ConstU32<bound>>`: the bound is carried by the value. -/
structure BoundedVec (bound : Nat) where
  toList : Bytes
  length_le : toList.length ≤ bound
deriving DecidableEq

namespace BoundedVec

variable {bound : Nat}

/-- The bound is not part of the value. -/
@[ext] theorem ext {a b : BoundedVec bound} (h : a.toList = b.toList) : a = b := by
  cases a; cases b; simp_all

/-- `BoundedVec::try_from`. -/
def tryFrom (bound : Nat) (l : Bytes) : Option (BoundedVec bound) :=
  if h : l.length ≤ bound then some ⟨l, h⟩ else none

/-- `BoundedVec::truncate_from`. -/
def truncateFrom (bound : Nat) (l : Bytes) : BoundedVec bound :=
  ⟨l.take bound, List.length_take_le bound l⟩

/-- Bytes within the bound convert. -/
theorem tryFrom_of_le {l : Bytes} (h : l.length ≤ bound) :
    tryFrom bound l = some ⟨l, h⟩ := dif_pos h

/-- And so do those of a bounded vector. -/
@[simp] theorem tryFrom_toList (a : BoundedVec bound) : tryFrom bound a.toList = some a :=
  dif_pos a.length_le

/-- A conversion that succeeds cuts nothing off. -/
theorem tryFrom_eq_some {l : Bytes} {a : BoundedVec bound} (h : tryFrom bound l = some a) :
    a = truncateFrom bound l ∧ l.length ≤ bound := by
  unfold tryFrom at h
  split at h
  · rename_i hle
    cases h
    exact ⟨ext (List.take_of_length_le hle).symm, hle⟩
  · exact nomatch h

/-- Bytes within the bound are not cut. -/
@[simp] theorem truncateFrom_toList_of_le {l : Bytes} (h : l.length ≤ bound) :
    (truncateFrom bound l).toList = l := List.take_of_length_le h

instance : Codec (BoundedVec bound) where
  encode a := encode a.toList
  decode bs := do
    let (l, rest) ← decode (α := Bytes) bs
    let a ← tryFrom bound l
    return (a, rest)

/-- A bound below 2^32 leaves room for every length. -/
theorem lawfulCodec (h : bound < 2 ^ 32) : LawfulCodec (BoundedVec bound) where
  decode_encode_append a rest := by
    have hlen : a.toList.length < 2 ^ 32 := Nat.lt_of_le_of_lt a.length_le h
    show ((decode (encode a.toList ++ rest)).bind fun p => _) = _
    rw [decode_encode_bytes hlen]
    simp

end BoundedVec

end Scale
