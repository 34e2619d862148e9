import TyphoonZero.ByteOrder

/-! Strings in UTF-8 and UTF-16, as the utfcpp library converts them. -/
namespace Utf8
open ByteOrder

inductive UtfError
  | notEnoughRoom
  | invalidLead
  | incompleteSequence
  | overlongSequence
  | invalidCodePoint
  | invalidUtf16
  deriving DecidableEq

def isTrail (oc : ℕ) : Bool := oc >>> 6 = 0x2

def isLeadSurrogate (cp : ℕ) : Bool := 0xd800 ≤ cp ∧ cp ≤ 0xdbff

def isTrailSurrogate (cp : ℕ) : Bool := 0xdc00 ≤ cp ∧ cp ≤ 0xdfff

def isSurrogate (cp : ℕ) : Bool := 0xd800 ≤ cp ∧ cp ≤ 0xdfff

def isCodePointValid (cp : ℕ) : Bool := cp ≤ 0x10ffff && !isSurrogate cp

/-- 0 is an invalid lead. -/
def sequenceLength (lead : ℕ) : ℕ :=
  if lead < 0x80 then 1
  else if lead >>> 5 = 0x6 then 2
  else if lead >>> 4 = 0xe then 3
  else if lead >>> 3 = 0x1e then 4
  else 0

def isOverlongSequence (cp length : ℕ) : Bool :=
  if cp < 0x80 then length ≠ 1
  else if cp < 0x800 then length ≠ 2
  else if cp < 0x10000 then length ≠ 3
  else false

def increaseSafely : List UInt8 → Except UtfError (ℕ × List UInt8)
  | [] => .error .notEnoughRoom
  | oc :: rest => if isTrail oc.toNat then .ok (oc.toNat, rest) else .error .incompleteSequence

/-- `get_sequence_x` behind the lead octet. -/
def getSequence (lead : ℕ) (rest : List UInt8) : ℕ → Except UtfError (ℕ × List UInt8)
  | 1 => .ok (lead, rest)
  | 2 => do
    let (oc, rest) ← increaseSafely rest
    pure (((lead <<< 6) &&& 0x7ff) + (oc &&& 0x3f), rest)
  | 3 => do
    let (oc, rest) ← increaseSafely rest
    let codePoint := ((lead <<< 12) &&& 0xffff) + ((oc <<< 6) &&& 0xfff)
    let (oc, rest) ← increaseSafely rest
    pure (codePoint + (oc &&& 0x3f), rest)
  | 4 => do
    let (oc, rest) ← increaseSafely rest
    let codePoint := ((lead <<< 18) &&& 0x1fffff) + ((oc <<< 12) &&& 0x3ffff)
    let (oc, rest) ← increaseSafely rest
    let codePoint := codePoint + ((oc <<< 6) &&& 0xfff)
    let (oc, rest) ← increaseSafely rest
    pure (codePoint + (oc &&& 0x3f), rest)
  | _ => .error .invalidLead

/-- `utf8::next`: the first code point and the octets behind it. -/
def next : List UInt8 → Except UtfError (ℕ × List UInt8)
  | [] => .error .notEnoughRoom
  | lead :: rest => do
    let length := sequenceLength lead.toNat
    let (cp, rest) ← getSequence lead.toNat rest length
    if isCodePointValid cp then
      if isOverlongSequence cp length then .error .overlongSequence else .ok (cp, rest)
    else .error .invalidCodePoint

/-- The octets of a code point. -/
def append (cp : ℕ) : Except UtfError (List UInt8) :=
  if isCodePointValid cp then
    if cp < 0x80 then .ok [UInt8.ofNat cp]
    else if cp < 0x800 then .ok [UInt8.ofNat ((cp >>> 6) ||| 0xc0), UInt8.ofNat ((cp &&& 0x3f) ||| 0x80)]
    else if cp < 0x10000 then
      .ok [UInt8.ofNat ((cp >>> 12) ||| 0xe0), UInt8.ofNat (((cp >>> 6) &&& 0x3f) ||| 0x80),
        UInt8.ofNat ((cp &&& 0x3f) ||| 0x80)]
    else
      .ok [UInt8.ofNat ((cp >>> 18) ||| 0xf0), UInt8.ofNat (((cp >>> 12) &&& 0x3f) ||| 0x80),
        UInt8.ofNat (((cp >>> 6) &&& 0x3f) ||| 0x80), UInt8.ofNat ((cp &&& 0x3f) ||| 0x80)]
  else .error .invalidCodePoint

/-- The code points of a string: `next` is called while there are octets. It takes one at least, so that a
`fuel` of their number is never used up. -/
def codePoints : ℕ → List UInt8 → Except UtfError (List ℕ)
  | _, [] => .ok []
  | 0, _ :: _ => .error .notEnoughRoom
  | fuel + 1, octet :: octets => do
    let (cp, rest) ← next (octet :: octets)
    let cps ← codePoints fuel rest
    pure (cp :: cps)

def distance (octets : List UInt8) : Except UtfError ℕ := (codePoints octets.length octets).map List.length

/-- The units that `utf8to16` writes for a code point. -/
def units (cp : ℕ) : List ℕ :=
  if cp > 0xffff then [(cp >>> 10) + 0xd7c0, (cp &&& 0x3ff) + 0xdc00] else [cp]

def utf8to16 (octets : List UInt8) : Except UtfError (List ℕ) :=
  (codePoints octets.length octets).map (List.flatMap units)

/-- A unit is one `wchar_t`, of which 16 bits are looked at. -/
def utf16to8 : List ℕ → Except UtfError (List UInt8)
  | [] => .ok []
  | unit :: rest =>
    let cp := unit &&& 0xffff
    if isLeadSurrogate cp then
      match rest with
      | [] => .error .invalidUtf16
      | trail :: rest =>
        let trailSurrogate := trail &&& 0xffff
        if isTrailSurrogate trailSurrogate then do
          let octets ← append (((cp <<< 10) + trailSurrogate + 0xfca02400) % 2 ^ 32)
          let rest ← utf16to8 rest
          pure (octets ++ rest)
        else .error .invalidUtf16
    else if isTrailSurrogate cp then .error .invalidUtf16
    else do
      let octets ← append cp
      let rest ← utf16to8 rest
      pure (octets ++ rest)

section Octets

/-- An octet with a mark above its `k` bits. -/
lemma toNat_marked {mark q : ℕ} (k : ℕ) (hmark : 2 ^ k ∣ mark) (hq : q < 2 ^ k) (hlt : mark + q < 256) :
    (UInt8.ofNat (q ||| mark)).toNat = mark + q := by
  rw [Nat.lor_comm, or_low hmark hq, UInt8.toNat_ofNat']
  exact Nat.mod_eq_of_lt hlt

lemma and_mask (k : ℕ) {m : ℕ} (h : m = 2 ^ k - 1) (n : ℕ) : n &&& m = n % 2 ^ k := by
  rw [h, Nat.and_two_pow_sub_one_eq_mod]

/-- A trail octet gives back its six bits. -/
lemma increaseSafely_trail {q : ℕ} (hq : q < 64) (rest : List UInt8) :
    increaseSafely (UInt8.ofNat (q ||| 0x80) :: rest) = .ok (0x80 + q, rest) := by
  have hoct := @toNat_marked 0x80 q 6 (by norm_num) hq (by omega)
  have htrail : isTrail (0x80 + q) = true := by
    rw [isTrail, Nat.shiftRight_eq_div_pow]
    exact decide_eq_true (by omega)
  rw [increaseSafely, hoct, if_pos htrail]

lemma isCodePointValid_char (c : Char) : isCodePointValid c.toNat = true := by
  have hc : c.toNat < 0xd800 ∨ 0xdfff < c.toNat ∧ c.toNat < 0x110000 := c.valid
  unfold isCodePointValid isSurrogate
  simp only [Bool.and_eq_true, decide_eq_true_eq, Bool.not_eq_true', decide_eq_false_iff_not]
  omega

/-- The octets of a character. -/
def octets (c : Char) : List UInt8 :=
  match append c.toNat with
  | .ok bs => bs
  | .error _ => []

lemma append_char (c : Char) : append c.toNat = .ok (octets c) := by
  unfold octets append
  rw [if_pos (isCodePointValid_char c)]
  split_ifs <;> rfl

/-- What `next` does once the sequence behind the lead octet has been read. -/
lemma next_sequence {lead : UInt8} {rest rest' : List UInt8} {cp n : ℕ} (hlen : sequenceLength lead.toNat = n)
    (hseq : getSequence lead.toNat rest n = .ok (cp, rest')) (hvalid : isCodePointValid cp = true)
    (hoverlong : isOverlongSequence cp n = false) : next (lead :: rest) = .ok (cp, rest') := by
  rw [next, hlen, hseq]
  change (if isCodePointValid cp then if isOverlongSequence cp n then _ else _ else _) = _
  rw [if_pos hvalid, hoverlong]
  rfl

lemma getSequence_two {a q : ℕ} (hq : q < 64) (rest : List UInt8) :
    getSequence a (UInt8.ofNat (q ||| 0x80) :: rest) 2 = .ok ((a * 64) % 2048 + q, rest) := by
  rw [getSequence, increaseSafely_trail hq]
  change Except.ok (((a <<< 6) &&& 0x7ff) + ((0x80 + q) &&& 0x3f), rest) = _
  rw [and_mask 11 (m := 0x7ff) rfl, and_mask 6 (m := 0x3f) rfl, Nat.shiftLeft_eq]
  congr 2
  omega

lemma getSequence_three {a p q : ℕ} (hp : p < 64) (hq : q < 64) (rest : List UInt8) :
    getSequence a (UInt8.ofNat (p ||| 0x80) :: UInt8.ofNat (q ||| 0x80) :: rest) 3
      = .ok ((a * 4096) % 65536 + p * 64 + q, rest) := by
  rw [getSequence, increaseSafely_trail hp]
  change (increaseSafely (UInt8.ofNat (q ||| 0x80) :: rest) >>= _) = _
  rw [increaseSafely_trail hq]
  change Except.ok (((a <<< 12) &&& 0xffff) + (((0x80 + p) <<< 6) &&& 0xfff) + ((0x80 + q) &&& 0x3f), rest) = _
  rw [and_mask 16 (m := 0xffff) rfl, and_mask 12 (m := 0xfff) rfl, and_mask 6 (m := 0x3f) rfl, Nat.shiftLeft_eq,
    Nat.shiftLeft_eq]
  congr 2
  omega

lemma getSequence_four {a o p q : ℕ} (ho : o < 64) (hp : p < 64) (hq : q < 64) (rest : List UInt8) :
    getSequence a (UInt8.ofNat (o ||| 0x80) :: UInt8.ofNat (p ||| 0x80) :: UInt8.ofNat (q ||| 0x80) :: rest) 4
      = .ok ((a * 262144) % 2097152 + o * 4096 + p * 64 + q, rest) := by
  rw [getSequence, increaseSafely_trail ho]
  change (increaseSafely (UInt8.ofNat (p ||| 0x80) :: _) >>= _) = _
  rw [increaseSafely_trail hp]
  change (increaseSafely (UInt8.ofNat (q ||| 0x80) :: rest) >>= _) = _
  rw [increaseSafely_trail hq]
  change Except.ok (((a <<< 18) &&& 0x1fffff) + (((0x80 + o) <<< 12) &&& 0x3ffff) + (((0x80 + p) <<< 6) &&& 0xfff)
    + ((0x80 + q) &&& 0x3f), rest) = _
  rw [and_mask 21 (m := 0x1fffff) rfl, and_mask 18 (m := 0x3ffff) rfl, and_mask 12 (m := 0xfff) rfl,
    and_mask 6 (m := 0x3f) rfl, Nat.shiftLeft_eq, Nat.shiftLeft_eq, Nat.shiftLeft_eq]
  congr 2
  omega

lemma sequenceLength_two {q : ℕ} (hq : q < 32) : sequenceLength (0xc0 + q) = 2 := by
  simp only [sequenceLength, Nat.shiftRight_eq_div_pow]
  rw [if_neg (by omega), if_pos (by omega)]

lemma sequenceLength_three {q : ℕ} (hq : q < 16) : sequenceLength (0xe0 + q) = 3 := by
  simp only [sequenceLength, Nat.shiftRight_eq_div_pow]
  rw [if_neg (by omega), if_neg (by omega), if_pos (by omega)]

lemma sequenceLength_four {q : ℕ} (hq : q < 8) : sequenceLength (0xf0 + q) = 4 := by
  simp only [sequenceLength, Nat.shiftRight_eq_div_pow]
  rw [if_neg (by omega), if_neg (by omega), if_neg (by omega), if_pos (by omega)]

/-- A character is read back from its octets. -/
lemma next_octets (c : Char) (rest : List UInt8) : next (octets c ++ rest) = .ok (c.toNat, rest) := by
  have happend := append_char c
  have hvalid := isCodePointValid_char c
  have hlt : c.toNat < 0x110000 := by
    have hc : c.toNat < 0xd800 ∨ 0xdfff < c.toNat ∧ c.toNat < 0x110000 := c.valid
    omega
  generalize c.toNat = cp at *
  unfold append at happend
  rw [if_pos hvalid] at happend
  simp only [Nat.shiftRight_eq_div_pow, and_mask 6 (m := 0x3f) rfl] at happend
  split_ifs at happend with h1 h2 h3
  · rw [← Except.ok.inj happend]
    have hlead : (UInt8.ofNat cp).toNat = cp := by
      rw [UInt8.toNat_ofNat']
      omega
    refine next_sequence (n := 1) ?_ ?_ hvalid ?_
    · rw [hlead]
      exact if_pos h1
    · rw [hlead]
      rfl
    · simp [isOverlongSequence, h1]
  · rw [← Except.ok.inj happend]
    have hlead := @toNat_marked 0xc0 (cp / 2 ^ 6) 5 (by norm_num) (by omega) (by omega)
    refine next_sequence (n := 2) ?_ ?_ hvalid ?_
    · rw [hlead]
      exact sequenceLength_two (by omega)
    · refine (getSequence_two (by omega) rest).trans ?_
      rw [hlead]
      congr 2
      omega
    · simp [isOverlongSequence, h1, h2]
  · rw [← Except.ok.inj happend]
    have hlead := @toNat_marked 0xe0 (cp / 2 ^ 12) 4 (by norm_num) (by omega) (by omega)
    refine next_sequence (n := 3) ?_ ?_ hvalid ?_
    · rw [hlead]
      exact sequenceLength_three (by omega)
    · refine (getSequence_three (by omega) (by omega) rest).trans ?_
      rw [hlead]
      congr 2
      omega
    · simp [isOverlongSequence, h1, h2, h3]
  · rw [← Except.ok.inj happend]
    have hlead := @toNat_marked 0xf0 (cp / 2 ^ 18) 3 (by norm_num) (by omega) (by omega)
    refine next_sequence (n := 4) ?_ ?_ hvalid ?_
    · rw [hlead]
      exact sequenceLength_four (by omega)
    · refine (getSequence_four (by omega) (by omega) (by omega) rest).trans ?_
      rw [hlead]
      congr 2
      omega
    · simp [isOverlongSequence, h1, h2, h3]

lemma octets_ne_nil (c : Char) : octets c ≠ [] := by
  intro hnil
  have happend := append_char c
  unfold append at happend
  rw [if_pos (isCodePointValid_char c), hnil] at happend
  split_ifs at happend <;> exact absurd (Except.ok.inj happend) (List.cons_ne_nil _ _)

lemma length_octets_le (c : Char) : (octets c).length ≤ 4 := by
  have happend := append_char c
  unfold append at happend
  rw [if_pos (isCodePointValid_char c)] at happend
  split_ifs at happend <;> rw [← Except.ok.inj happend] <;> simp

/-- The UTF-8 string of the characters. -/
def encode (cs : List Char) : List UInt8 := cs.flatMap octets

lemma encode_cons (c : Char) (cs : List Char) : encode (c :: cs) = octets c ++ encode cs := List.flatMap_cons

lemma length_le_encode (cs : List Char) : cs.length ≤ (encode cs).length := by
  induction cs with
  | nil => exact le_rfl
  | cons c cs ih =>
    have hpos := List.length_pos_iff.mpr (octets_ne_nil c)
    rw [encode_cons, List.length_append, List.length_cons]
    omega

lemma length_encode_le (cs : List Char) : (encode cs).length ≤ cs.length * 4 := by
  induction cs with
  | nil => exact le_rfl
  | cons c cs ih =>
    have hle := length_octets_le c
    rw [encode_cons, List.length_append, List.length_cons]
    omega

lemma length_encode_take_le (cs : List Char) (n : ℕ) : (encode (cs.take n)).length ≤ (encode cs).length := by
  conv_rhs => rw [← List.take_append_drop n cs, encode, List.flatMap_append, List.length_append]
  exact Nat.le_add_right _ _

lemma codePoints_encode {cs : List Char} {fuel : ℕ} (hfuel : cs.length ≤ fuel) :
    codePoints fuel (encode cs) = .ok (cs.map Char.toNat) := by
  induction cs generalizing fuel with
  | nil => cases fuel <;> rfl
  | cons c cs ih =>
    obtain ⟨n, rfl⟩ : ∃ n, fuel = n + 1 := Nat.exists_eq_succ_of_ne_zero (by
      rw [List.length_cons] at hfuel
      omega)
    obtain ⟨b, bs, hoct⟩ := List.exists_cons_of_ne_nil (octets_ne_nil c)
    have hnext := next_octets c (encode cs)
    rw [encode_cons, hoct, List.cons_append, codePoints]
    rw [hoct, List.cons_append] at hnext
    rw [hnext]
    change (codePoints n (encode cs) >>= _) = _
    rw [ih (Nat.le_of_succ_le_succ hfuel)]
    rfl

lemma distance_encode (cs : List Char) : distance (encode cs) = .ok cs.length := by
  rw [distance, codePoints_encode (length_le_encode cs)]
  exact congrArg Except.ok (List.length_map _)

/-- The UTF-16 units of the characters. -/
def wideUnits (cs : List Char) : List ℕ := cs.flatMap fun c => units c.toNat

lemma utf8to16_encode (cs : List Char) : utf8to16 (encode cs) = .ok (wideUnits cs) := by
  rw [utf8to16, codePoints_encode (length_le_encode cs)]
  exact congrArg Except.ok (List.flatMap_map _ _ cs)

/-- In the basic plane a character is one unit. -/
lemma wideUnits_basic {cs : List Char} (hbasic : ∀ c ∈ cs, c.toNat < 0x10000) :
    wideUnits cs = cs.map Char.toNat := by
  rw [wideUnits, List.map_eq_flatMap]
  refine List.flatMap_congr fun c hc => ?_
  have hlt := hbasic c hc
  exact if_neg (by omega)

lemma length_units_pos (cp : ℕ) : 1 ≤ (units cp).length := by
  unfold units
  split_ifs <;> simp

lemma length_le_wideUnits (cs : List Char) : cs.length ≤ (wideUnits cs).length := by
  induction cs with
  | nil => exact le_rfl
  | cons c cs ih =>
    have hpos := length_units_pos c.toNat
    rw [wideUnits, List.flatMap_cons, List.length_append, List.length_cons]
    rw [wideUnits] at ih
    omega

/-- There are more units than characters as soon as one lies outside the basic plane. -/
lemma length_wideUnits_le_iff (cs : List Char) :
    (wideUnits cs).length ≤ cs.length ↔ ∀ c ∈ cs, c.toNat < 0x10000 := by
  refine ⟨?_, fun hbasic => by rw [wideUnits_basic hbasic, List.length_map]⟩
  induction cs with
  | nil => exact fun _ => List.forall_mem_nil _
  | cons c cs ih =>
    intro hle
    have hpos := length_units_pos c.toNat
    have hrest := length_le_wideUnits cs
    rw [wideUnits, List.flatMap_cons, List.length_append, List.length_cons, ← wideUnits] at hle
    have hc : c.toNat < 0x10000 := by
      by_contra hge
      have htwo : (units c.toNat).length = 2 := by
        rw [units, if_pos (by omega)]
        rfl
      omega
    exact List.forall_mem_cons.mpr ⟨hc, ih (by omega)⟩

/-- Units of the basic plane are converted back. -/
lemma utf16to8_basic {cs : List Char} (hbasic : ∀ c ∈ cs, c.toNat < 0x10000) :
    utf16to8 (cs.map Char.toNat) = .ok (encode cs) := by
  induction cs with
  | nil => rfl
  | cons c cs ih =>
    have hlt := hbasic c List.mem_cons_self
    have hchar : c.toNat < 0xd800 ∨ 0xdfff < c.toNat ∧ c.toNat < 0x110000 := c.valid
    have hunit : c.toNat &&& 0xffff = c.toNat := by
      rw [and_mask 16 (m := 0xffff) rfl]
      exact Nat.mod_eq_of_lt hlt
    have hlead : ¬isLeadSurrogate c.toNat = true := by
      rw [isLeadSurrogate, decide_eq_true_eq]
      omega
    have htrail : ¬isTrailSurrogate c.toNat = true := by
      rw [isTrailSurrogate, decide_eq_true_eq]
      omega
    rw [List.map_cons, utf16to8.eq_def]
    simp only [hunit]
    change (if isLeadSurrogate c.toNat then _ else _) = _
    rw [if_neg hlead, if_neg htrail, append_char, ih fun d hd => hbasic d (List.mem_cons_of_mem c hd)]
    rfl

end Octets

end Utf8
