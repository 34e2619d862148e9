import TyphoonZero.ByteOrder

/-! A wire format of tagged fields: numbers in base 128, fixed words, byte strings with their length
in front, and messages as sequences of fields. A parser goes over the fields in the order in which
they come and skips those that its message does not know. -/
namespace WireFormat
open ByteOrder

/-- What is read from the front of the bytes, and what is left of them. -/
abbrev Reader (α : Type*) := List UInt8 → Option (α × List UInt8)

/-- At most `k + 1` digits in base 128, the lowest first; all but the last are marked. -/
def digits : ℕ → ℕ → List UInt8
  | 0, n => [UInt8.ofNat n]
  | k + 1, n => if n < 128 then [UInt8.ofNat n] else UInt8.ofNat (n % 128 + 128) :: digits k (n / 128)

/-- Ten digits hold 64 bits. -/
def varint (n : ℕ) : List UInt8 := digits 9 n

/-- The digits of a number that has at most `k` of them. -/
def readDigits : ℕ → Reader ℕ
  | 0, _ => none
  | _ + 1, [] => none
  | k + 1, b :: bs =>
    if b.toNat < 128 then some (b.toNat, bs)
    else (readDigits k bs).map fun r => (b.toNat - 128 + 128 * r.1, r.2)

def readVarint32 : Reader UInt32 := fun bs => (readDigits 10 bs).map fun r => (UInt32.ofNat r.1, r.2)

def readVarint64 : Reader UInt64 := fun bs => (readDigits 10 bs).map fun r => (UInt64.ofNat r.1, r.2)

/-- A tag is the number of a field, times eight, and its wire type. -/
def readTag : Reader ℕ := fun bs => (readDigits 5 bs).map fun r => (r.1 % 2 ^ 32, r.2)

/-- `INT_MAX`, less the bytes that a parser may look ahead. -/
abbrev maxSize : ℕ := 2 ^ 31 - 1 - 16

def readSize : Reader ℕ := fun bs =>
  (readDigits 5 bs).bind fun r => if r.1 ≤ maxSize then some r else none

def readBytes (n : ℕ) : Reader (List UInt8) := fun bs =>
  if n ≤ bs.length then some (bs.take n, bs.drop n) else none

def readFixed32 : Reader UInt32 := fun bs =>
  (readBytes 4 bs).map fun r => (UInt32.ofNat (ofLeBytes r.1), r.2)

def readString : Reader (List UInt8) := fun bs => (readSize bs).bind fun r => readBytes r.1 r.2

/-- A field that is no group. -/
def skipScalar (tag : ℕ) (bs : List UInt8) : Option (List UInt8) :=
  match tag % 8 with
  | 0 => (readDigits 10 bs).map Prod.snd
  | 1 => (readBytes 8 bs).map Prod.snd
  | 2 => (readString bs).map Prod.snd
  | 5 => (readBytes 4 bs).map Prod.snd
  | _ => none

/-- The fields of a group up to its end, whose tag is one more than that of the start. -/
def skipGroup : ℕ → ℕ → ℕ → List UInt8 → Option (List UInt8)
  | 0, _, _, _ => none
  | fuel + 1, depth, start, bs =>
    (readTag bs).bind fun (tag, bs) =>
      if tag = 0 ∨ tag % 8 = 4 then if tag = start + 1 then some bs else none
      else if tag / 8 = 0 then none
      else if tag % 8 = 3 then
        if depth = 0 then none
        else (skipGroup fuel (depth - 1) tag bs).bind (skipGroup fuel depth start)
      else (skipScalar tag bs).bind (skipGroup fuel depth start)

/-- Every turn of a group reads at least one byte. -/
def skipField (depth tag : ℕ) (bs : List UInt8) : Option (List UInt8) :=
  if tag / 8 = 0 then none
  else if tag % 8 = 3 then if depth = 0 then none else skipGroup bs.length (depth - 1) tag bs
  else skipScalar tag bs

/-- The messages of a type: the one without fields, and what is done with the field of a tag at a
depth of nested messages; `none` for a tag that the type does not know. -/
structure MessageType (M : Type*) where
  empty : M
  field : ℕ → Option (ℕ → M → Reader M)

namespace MessageType
variable {M : Type*} (T : MessageType M)

/-- An end of a group, or the tag 0, is no field of a message. -/
def parseLoop (depth : ℕ) : ℕ → M → List UInt8 → Option M
  | 0, m, bs => if bs = [] then some m else none
  | fuel + 1, m, bs =>
    if bs = [] then some m
    else (readTag bs).bind fun (tag, bs) =>
      match T.field tag with
      | some parse => (parse depth m bs).bind fun (m, bs) => parseLoop depth fuel m bs
      | none =>
        if tag = 0 ∨ tag % 8 = 4 then none
        else (skipField depth tag bs).bind (parseLoop depth fuel m)

/-- Every turn reads at least one byte. -/
def parse (depth : ℕ) (bs : List UInt8) : Option M := T.parseLoop depth bs.length T.empty bs

end MessageType

section Fields
variable {M N : Type*}

def fixed32Field (set : M → UInt32 → M) : ℕ → M → Reader M :=
  fun _ m bs => (readFixed32 bs).map fun r => (set m r.1, r.2)

def uint32Field (set : M → UInt32 → M) : ℕ → M → Reader M :=
  fun _ m bs => (readVarint32 bs).map fun r => (set m r.1, r.2)

/-- The low 32 bits of a 64-bit number. -/
def int32Field (set : M → Int32 → M) : ℕ → M → Reader M :=
  fun _ m bs => (readVarint64 bs).map fun r => (set m r.1.toUInt32.toInt32, r.2)

/-- A text that is not encoded as `utf8` demands fails the parse. -/
def stringField (utf8 : List UInt8 → Bool) (set : M → List UInt8 → M) : ℕ → M → Reader M :=
  fun _ m bs => (readString bs).bind fun r => if utf8 r.1 then some (set m r.1, r.2) else none

def messageField (T : MessageType N) (set : M → N → M) : ℕ → M → Reader M :=
  fun depth m bs => (readString bs).bind fun r =>
    if depth = 0 then none else (T.parse (depth - 1) r.1).map fun n => (set m n, r.2)

end Fields

def fixed32Bytes (tag : ℕ) (v : UInt32) : List UInt8 := varint tag ++ leBytes 4 v.toNat

def uint32Bytes (tag : ℕ) (v : UInt32) : List UInt8 := varint tag ++ varint v.toNat

/-- A negative number is extended to 64 bits. -/
def int32Bytes (tag : ℕ) (v : Int32) : List UInt8 := varint tag ++ varint v.toInt64.toUInt64.toNat

def stringBytes (tag : ℕ) (s : List UInt8) : List UInt8 := varint tag ++ (varint s.length ++ s)

/-- A nested message, with the size that was computed for it before. -/
def messageBytes (tag size : ℕ) (bs : List UInt8) : List UInt8 := varint tag ++ (varint size ++ bs)

/-- The number of digits, with a multiplication for the division by 7. -/
def varintSize (n : ℕ) : ℕ := (Nat.log2 (n ||| 1) * 9 + 73) / 64

def int32Size (v : Int32) : ℕ := if v < 0 then 10 else varintSize v.toUInt32.toNat

def lengthDelimitedSize (length : ℕ) : ℕ := length + varintSize (length % 2 ^ 32)

/-- The reader takes exactly these bytes, whatever follows them. -/
def Reads {α : Type*} (r : Reader α) (bs : List UInt8) (a : α) : Prop := ∀ rest, r (bs ++ rest) = some (a, rest)

section Reads
variable {α : Type*} {r : Reader α} {bs : List UInt8} {a : α} {n : ℕ}

lemma toNat_digit (h : n < 256) : (UInt8.ofNat n).toNat = n := by
  rw [UInt8.toNat_ofNat']
  exact Nat.mod_eq_of_lt h

lemma digits_ne_nil (k n : ℕ) : digits k n ≠ [] := by
  cases k with
  | zero => exact List.cons_ne_nil _ _
  | succ k =>
    unfold digits
    split_ifs
    all_goals exact List.cons_ne_nil _ _

lemma varint_length_pos (n : ℕ) : 0 < (varint n).length := List.length_pos_of_ne_nil (digits_ne_nil 9 n)

lemma reads_digits {k j : ℕ} (hk : n < 128 ^ (k + 1)) (hj : n < 128 ^ j) (hpos : 0 < j) :
    Reads (readDigits j) (digits k n) n := by
  intro rest
  induction k generalizing n j with
  | zero =>
    obtain ⟨j, rfl⟩ := Nat.exists_eq_succ_of_ne_zero hpos.ne'
    have hn : n < 128 := by simpa using hk
    simp [digits, readDigits, toNat_digit (show n < 256 by omega), hn]
  | succ k ih =>
    obtain ⟨j, rfl⟩ := Nat.exists_eq_succ_of_ne_zero hpos.ne'
    unfold digits
    split_ifs with hn
    · simp [readDigits, toNat_digit (show n < 256 by omega), hn]
    · have hdigit := toNat_digit (show n % 128 + 128 < 256 by omega)
      have hrest : n / 128 < 128 ^ j := by
        rw [Nat.div_lt_iff_lt_mul (by norm_num), ← pow_succ]
        exact hj
      have hj' : 0 < j := by
        rcases Nat.eq_zero_or_pos j with rfl | hj'
        · omega
        · exact hj'
      have hk' : n / 128 < 128 ^ (k + 1) := by
        rw [Nat.div_lt_iff_lt_mul (by norm_num), ← pow_succ]
        exact hk
      rw [List.cons_append, readDigits, hdigit, if_neg (by omega), ih hk' hrest hj', Option.map_some]
      have hvalue : n % 128 + 128 - 128 + 128 * (n / 128) = n := by omega
      rw [hvalue]

lemma reads_varint32 (v : UInt32) : Reads readVarint32 (varint v.toNat) v := by
  intro rest
  have hv := v.toNat_lt
  rw [readVarint32, varint, reads_digits (by omega) (by omega) (by norm_num) rest]
  simp

lemma reads_varint64 (v : UInt64) : Reads readVarint64 (varint v.toNat) v := by
  intro rest
  have hv := v.toNat_lt
  rw [readVarint64, varint, reads_digits (by omega) (by omega) (by norm_num) rest]
  simp

lemma reads_tag (h : n < 2 ^ 32) : Reads readTag (varint n) n := by
  intro rest
  rw [readTag, varint, reads_digits (by omega) (by omega) (by norm_num) rest, Option.map_some, Nat.mod_eq_of_lt h]

lemma reads_size (h : n ≤ maxSize) : Reads readSize (varint n) n := by
  intro rest
  have hn : n < 2 ^ 31 := lt_of_le_of_lt h (by norm_num)
  rw [readSize, varint, reads_digits (by omega) (by omega) (by norm_num) rest, Option.bind_some, if_pos h]

lemma reads_bytes (s : List UInt8) : Reads (readBytes s.length) s s := by
  intro rest
  rw [readBytes, if_pos (by simp), List.take_left, List.drop_left]

lemma reads_fixed32 (v : UInt32) : Reads readFixed32 (leBytes 4 v.toNat) v := by
  intro rest
  have hbytes := reads_bytes (leBytes 4 v.toNat) rest
  rw [length_leBytes] at hbytes
  have hv := v.toNat_lt
  rw [readFixed32, hbytes, Option.map_some, ofLeBytes_leBytes, Nat.mod_eq_of_lt (by omega)]
  simp

lemma toInt32_toInt64 (v : Int32) : v.toInt64.toUInt64.toUInt32.toInt32 = v := by
  have hlow : v.toInt64.toInt32 = v := Int32.toInt32_toInt64 v
  have hbits : v.toInt64.toBitVec.signExtend 32 = v.toBitVec := congrArg Int32.toBitVec hlow
  rw [BitVec.signExtend_eq_setWidth_of_le _ (by norm_num)] at hbits
  exact Int32.toBitVec_inj.mp hbits

lemma reads_string {s : List UInt8} (h : s.length ≤ maxSize) : Reads readString (varint s.length ++ s) s := by
  intro rest
  rw [readString, List.append_assoc, reads_size h, Option.bind_some, reads_bytes]

lemma readString_small {r : List UInt8 × List UInt8} (h : readString bs = some r) : r.1.length ≤ maxSize := by
  obtain ⟨⟨n, rest⟩, hsize, hbytes⟩ := Option.bind_eq_some_iff.mp h
  obtain ⟨digits, _, hsize⟩ := Option.bind_eq_some_iff.mp hsize
  split_ifs at hsize with hle
  cases hsize
  rw [readBytes] at hbytes
  split_ifs at hbytes
  cases hbytes
  exact (List.length_take_le _ _).trans hle

/-- A text that a field was set to is valid and short. -/
lemma stringField_sound {M : Type*} {utf8 : List UInt8 → Bool} {set : M → List UInt8 → M} {depth : ℕ} {m m' : M}
    {rest : List UInt8} (h : stringField utf8 set depth m bs = some (m', rest)) :
    ∃ s, utf8 s = true ∧ s.length ≤ maxSize ∧ m' = set m s := by
  obtain ⟨r, hr, h⟩ := Option.bind_eq_some_iff.mp h
  split_ifs at h with hutf8
  cases h
  exact ⟨r.1, hutf8, readString_small hr, rfl⟩

end Reads

section Sizes

lemma log2_or_one (n : ℕ) : Nat.log2 (n ||| 1) = Nat.log2 n := by
  rcases eq_or_ne n 0 with rfl | hn
  · rfl
  · have hor : n ||| 1 ≠ 0 := by simp [Nat.or_eq_zero_iff]
    obtain ⟨hle, hlt⟩ := (Nat.log2_eq_iff hn).mp rfl
    refine (Nat.log2_eq_iff hor).mpr ⟨hle.trans Nat.left_le_or, Nat.or_lt_two_pow hlt ?_⟩
    exact Nat.one_lt_two_pow (Nat.succ_ne_zero _)

lemma log2_div_128 {n : ℕ} (h : 128 ≤ n) : Nat.log2 n = Nat.log2 (n / 128) + 7 := by
  have hdiv : n / 128 ≠ 0 := (Nat.div_pos h (by norm_num)).ne'
  obtain ⟨hle, hlt⟩ := (Nat.log2_eq_iff hdiv).mp rfl
  refine (Nat.log2_eq_iff (by omega)).mpr ⟨?_, ?_⟩
  · rw [pow_add]
    omega
  · have hpow : 2 ^ (Nat.log2 (n / 128) + 7 + 1) = 2 ^ (Nat.log2 (n / 128) + 1) * 128 := by ring
    rw [hpow]
    omega

lemma length_digits {k n : ℕ} (h : n < 128 ^ (k + 1)) : (digits k n).length = Nat.log2 n / 7 + 1 := by
  have hsmall : ∀ n < 128, Nat.log2 n / 7 = 0 := by
    intro n hn
    rcases eq_or_ne n 0 with rfl | hne
    · rfl
    · exact Nat.div_eq_of_lt ((Nat.log2_lt hne).mpr hn)
  induction k generalizing n with
  | zero =>
    rw [hsmall n (by simpa using h)]
    rfl
  | succ k ih =>
    unfold digits
    split_ifs with hn
    · rw [hsmall n hn]
      rfl
    · have hrest : n / 128 < 128 ^ (k + 1) := by
        rw [Nat.div_lt_iff_lt_mul (by norm_num), ← pow_succ]
        exact h
      rw [List.length_cons, ih hrest, log2_div_128 (not_lt.mp hn), Nat.add_div_right _ (by norm_num)]

lemma length_varint {n : ℕ} (h : n < 2 ^ 64) : (varint n).length = varintSize n := by
  rw [varint, varintSize, length_digits (by omega), log2_or_one]
  have hlog : Nat.log2 n < 64 := by
    rcases eq_or_ne n 0 with rfl | hne
    · decide
    · exact (Nat.log2_lt hne).mpr h
  omega

lemma length_varint32 (v : UInt32) : (varint v.toNat).length = varintSize v.toNat :=
  length_varint (v.toNat_lt.trans (by norm_num))

lemma length_tag {tag : ℕ} (h : tag < 128) : (varint tag).length = 1 := by
  rw [varint, digits, if_pos h]
  rfl

lemma length_int32 (v : Int32) : (varint v.toInt64.toUInt64.toNat).length = int32Size v := by
  rw [length_varint (UInt64.toNat_lt _), int32Size]
  split_ifs with hneg
  · have hneg' : v.toInt64.toInt < 0 := by
      rw [Int32.toInt_toInt64]
      exact Int32.lt_iff_toInt_lt.mp hneg
    have hbit : 2 ^ 63 ≤ v.toInt64.toUInt64.toNat := by
      have h : 2 ^ 64 ≤ 2 * v.toInt64.toUInt64.toNat := BitVec.toInt_neg_iff.mp hneg'
      omega
    have hlt := v.toInt64.toUInt64.toNat_lt
    have hlog : Nat.log2 v.toInt64.toUInt64.toNat = 63 := (Nat.log2_eq_iff (by omega)).mpr ⟨hbit, by omega⟩
    rw [varintSize, log2_or_one, hlog]
  · have hpos : 0 ≤ v := Int32.not_lt.mp hneg
    have hpos' : 0 ≤ v.toInt64 := by
      rw [Int64.le_iff_toInt_le, Int32.toInt_toInt64]
      exact Int32.le_iff_toInt_le.mp hpos
    rw [Int64.toNat_toUInt64_of_le hpos', Int32.toNat_toUInt32_of_le hpos, Int32.toNatClampNeg_toInt64]

lemma length_delimited {s : List UInt8} (h : s.length ≤ maxSize) :
    (varint s.length ++ s).length = lengthDelimitedSize s.length := by
  have hlt : s.length < 2 ^ 32 := lt_of_le_of_lt h (by norm_num)
  rw [List.length_append, length_varint (hlt.trans (by norm_num)), lengthDelimitedSize, Nat.mod_eq_of_lt hlt,
    Nat.add_comm]

end Sizes

namespace MessageType
variable {M N : Type*} {T : MessageType M} {depth tag : ℕ} {bs bs' : List UInt8} {m m' m'' : M}

/-- From `m` the parser goes over exactly these bytes and ends in `m'`, whatever follows them. -/
def Encodes (T : MessageType M) (depth : ℕ) (bs : List UInt8) (m m' : M) : Prop :=
  ∃ n ≤ bs.length, ∀ fuel rest, T.parseLoop depth (fuel + n) m (bs ++ rest) = T.parseLoop depth fuel m' rest

lemma Encodes.nil (m : M) : T.Encodes depth [] m m := ⟨0, le_rfl, fun _ _ => rfl⟩

lemma Encodes.append (h : T.Encodes depth bs m m') (h' : T.Encodes depth bs' m' m'') :
    T.Encodes depth (bs ++ bs') m m'' := by
  obtain ⟨n, hn, heq⟩ := h
  obtain ⟨n', hn', heq'⟩ := h'
  refine ⟨n + n', ?_, fun fuel rest => ?_⟩
  · rw [List.length_append]
    omega
  · have hfuel : fuel + (n + n') = fuel + n' + n := by omega
    rw [hfuel, List.append_assoc, heq, heq']

/-- One field of a known tag. -/
lemma Encodes.field {parse : ℕ → M → Reader M} (hfield : T.field tag = some parse) (htag : tag < 2 ^ 32)
    (h : Reads (parse depth m) bs m') : T.Encodes depth (varint tag ++ bs) m m' := by
  refine ⟨1, ?_, fun fuel rest => ?_⟩
  · rw [List.length_append]
    have hpos := varint_length_pos tag
    omega
  · have hne : varint tag ++ bs ++ rest ≠ [] := by
      simp [varint, digits_ne_nil]
    rw [parseLoop, if_neg hne, List.append_assoc, reads_tag htag, Option.bind_some]
    simp only [hfield]
    rw [h, Option.bind_some]

/-- One field of an unknown tag. -/
lemma Encodes.unknown (hfield : T.field tag = none) (htag : tag < 2 ^ 32) (hzero : tag ≠ 0) (hend : tag % 8 ≠ 4)
    (h : ∀ rest, skipField depth tag (bs ++ rest) = some rest) : T.Encodes depth (varint tag ++ bs) m m := by
  refine ⟨1, ?_, fun fuel rest => ?_⟩
  · rw [List.length_append]
    have hpos := varint_length_pos tag
    omega
  · have hne : varint tag ++ bs ++ rest ≠ [] := by
      simp [varint, digits_ne_nil]
    rw [parseLoop, if_neg hne, List.append_assoc, reads_tag htag, Option.bind_some]
    simp only [hfield]
    rw [if_neg (by simp [hzero, hend]), h, Option.bind_some]

lemma parseLoop_nil (fuel : ℕ) (m : M) : T.parseLoop depth fuel m [] = some m := by
  cases fuel with
  | zero | succ fuel => rw [parseLoop, if_pos rfl]

lemma Encodes.parse (h : T.Encodes depth bs T.empty m) : T.parse depth bs = some m := by
  obtain ⟨n, hn, heq⟩ := h
  have hloop := heq (bs.length - n) []
  rwa [Nat.sub_add_cancel hn, List.append_nil, parseLoop_nil] at hloop

/-- A field that is written only if `p`. -/
lemma Encodes.optional {p : Prop} [Decidable p] (h : p → T.Encodes depth bs m m') :
    T.Encodes depth (if p then bs else []) m (if p then m' else m) := by
  split_ifs with hp
  · exact h hp
  · exact .nil m

lemma Encodes.repeated {α : Type*} {enc : α → List UInt8} {add : M → α → M} {xs : List α}
    (h : ∀ x ∈ xs, ∀ m, T.Encodes depth (enc x) m (add m x)) (m : M) :
    T.Encodes depth (xs.flatMap enc) m (xs.foldl add m) := by
  induction xs generalizing m with
  | nil => exact .nil m
  | cons x xs ih =>
    rw [List.flatMap_cons, List.foldl_cons]
    exact (h x List.mem_cons_self m).append (ih (fun y hy => h y (List.mem_cons_of_mem x hy)) (add m x))

section Known
variable (htag : tag < 2 ^ 32)
include htag

lemma Encodes.fixed32 (set : M → UInt32 → M) (hfield : T.field tag = some (fixed32Field set)) (v : UInt32) (m : M) :
    T.Encodes depth (fixed32Bytes tag v) m (set m v) := by
  refine .field hfield htag fun rest => ?_
  rw [fixed32Field, reads_fixed32, Option.map_some]

lemma Encodes.uint32 (set : M → UInt32 → M) (hfield : T.field tag = some (uint32Field set)) (v : UInt32) (m : M) :
    T.Encodes depth (uint32Bytes tag v) m (set m v) := by
  refine .field hfield htag fun rest => ?_
  rw [uint32Field, reads_varint32, Option.map_some]

lemma Encodes.int32 (set : M → Int32 → M) (hfield : T.field tag = some (int32Field set)) (v : Int32) (m : M) :
    T.Encodes depth (int32Bytes tag v) m (set m v) := by
  refine .field hfield htag fun rest => ?_
  rw [int32Field, reads_varint64, Option.map_some, toInt32_toInt64]

lemma Encodes.string {utf8 : List UInt8 → Bool} (set : M → List UInt8 → M)
    (hfield : T.field tag = some (stringField utf8 set)) {s : List UInt8} (hutf8 : utf8 s = true)
    (hs : s.length ≤ maxSize) (m : M) : T.Encodes depth (stringBytes tag s) m (set m s) := by
  refine .field hfield htag fun rest => ?_
  rw [stringField, reads_string hs, Option.bind_some, if_pos hutf8]

lemma Encodes.message {N : Type*} {U : MessageType N} (set : M → N → M)
    (hfield : T.field tag = some (messageField U set)) {n : N} (h : U.Encodes depth bs U.empty n)
    (hs : bs.length ≤ maxSize) (m : M) : T.Encodes (depth + 1) (stringBytes tag bs) m (set m n) := by
  refine .field hfield htag fun rest => ?_
  rw [messageField, reads_string hs, Option.bind_some, if_neg (Nat.succ_ne_zero depth), Nat.add_sub_cancel, h.parse,
    Option.map_some]

end Known

/-- What every field keeps holds of the parsed message. -/
theorem parseLoop_invariant {I : M → Prop}
    (hfield : ∀ tag parse, T.field tag = some parse →
      ∀ depth m bs m' rest, I m → parse depth m bs = some (m', rest) → I m')
    {fuel : ℕ} (hm : I m) (h : T.parseLoop depth fuel m bs = some m') : I m' := by
  induction fuel generalizing m bs with
  | zero =>
    rw [parseLoop] at h
    split_ifs at h
    cases h
    exact hm
  | succ fuel ih =>
    rw [parseLoop] at h
    split_ifs at h with hnil
    · cases h
      exact hm
    · obtain ⟨⟨tag, rest⟩, _, h⟩ := Option.bind_eq_some_iff.mp h
      cases htag : T.field tag with
      | some parse =>
        simp only [htag] at h
        obtain ⟨⟨m₁, rest₁⟩, hparse, h⟩ := Option.bind_eq_some_iff.mp h
        exact ih (hfield tag parse htag _ _ _ _ _ hm hparse) h
      | none =>
        simp only [htag] at h
        split_ifs at h
        obtain ⟨rest₁, _, h⟩ := Option.bind_eq_some_iff.mp h
        exact ih hm h

lemma parse_invariant {I : M → Prop} (hempty : I T.empty)
    (hfield : ∀ tag parse, T.field tag = some parse →
      ∀ depth m bs m' rest, I m → parse depth m bs = some (m', rest) → I m')
    (h : T.parse depth bs = some m) : I m :=
  parseLoop_invariant hfield hempty h

/-- Fields whose tags the type does not know. -/
inductive UnknownFields (T : MessageType M) (depth : ℕ) : List UInt8 → Prop
  | nil : UnknownFields T depth []
  | cons {tag : ℕ} {bs us : List UInt8} : T.field tag = none → tag < 2 ^ 32 → tag ≠ 0 → tag % 8 ≠ 4 →
      (∀ rest, skipField depth tag (bs ++ rest) = some rest) → UnknownFields T depth us →
      UnknownFields T depth (varint tag ++ bs ++ us)

lemma UnknownFields.encodes (h : UnknownFields T depth bs) (m : M) : T.Encodes depth bs m m := by
  induction h with
  | nil => exact .nil m
  | cons hfield htag hzero hend hskip _ ih => exact (Encodes.unknown hfield htag hzero hend hskip).append ih

end MessageType

end WireFormat
