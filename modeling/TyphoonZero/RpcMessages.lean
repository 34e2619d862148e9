import TyphoonZero.WireFormat

/-! The messages of the remote calls, as their generated classes write and read them. A field that
has its default is not written; texts are sequences of bytes, of which only a parser demands that
they are UTF-8. Of a message only the declared fields are here: the classes keep the fields that they
do not know beside them and write these again, but a message that was not parsed has none. -/
namespace TyphoonZero.Rpc
open ByteOrder WireFormat MessageType

/-- `status` is a number: an enumeration keeps the values that it has no name for. -/
structure Header where
  serviceHash : UInt32 := 0
  methodId : UInt32 := 0
  token : UInt32 := 0
  size : UInt32 := 0
  status : Int32 := 0
  deriving DecidableEq

namespace Header

def type : MessageType Header where
  empty := {}
  field
    | 13 => some (fixed32Field fun m v => { m with serviceHash := v })
    | 16 => some (uint32Field fun m v => { m with methodId := v })
    | 24 => some (uint32Field fun m v => { m with token := v })
    | 32 => some (uint32Field fun m v => { m with size := v })
    | 40 => some (int32Field fun m v => { m with status := v })
    | _ => none

def serialize (m : Header) : List UInt8 :=
  (if m.serviceHash ≠ 0 then fixed32Bytes 13 m.serviceHash else []) ++
  (if m.methodId ≠ 0 then uint32Bytes 16 m.methodId else []) ++
  (if m.token ≠ 0 then uint32Bytes 24 m.token else []) ++
  (if m.size ≠ 0 then uint32Bytes 32 m.size else []) ++
  if m.status ≠ 0 then int32Bytes 40 m.status else []

def byteSizeLong (m : Header) : ℕ :=
  (if m.serviceHash ≠ 0 then 1 + 4 else 0) +
  (if m.methodId ≠ 0 then 1 + varintSize m.methodId.toNat else 0) +
  (if m.token ≠ 0 then 1 + varintSize m.token.toNat else 0) +
  (if m.size ≠ 0 then 1 + varintSize m.size.toNat else 0) +
  if m.status ≠ 0 then 1 + int32Size m.status else 0

def mergeFrom (m other : Header) : Header :=
  let m := if other.serviceHash ≠ 0 then { m with serviceHash := other.serviceHash } else m
  let m := if other.methodId ≠ 0 then { m with methodId := other.methodId } else m
  let m := if other.token ≠ 0 then { m with token := other.token } else m
  let m := if other.size ≠ 0 then { m with size := other.size } else m
  if other.status ≠ 0 then { m with status := other.status } else m

end Header

structure Address where
  addRess : List UInt8 := []
  port : UInt32 := 0
  deriving DecidableEq

/-- The messages without a field of their own. -/
structure NoResponse where
  deriving DecidableEq

structure SearchRequest where
  query : List UInt8 := []
  pageNumber : Int32 := 0
  resultPerPage : Int32 := 0
  deriving DecidableEq

structure Result where
  url : List UInt8 := []
  title : List UInt8 := []
  snippets : List (List UInt8) := []
  deriving DecidableEq

structure SearchResponse where
  results : List Result := []
  deriving DecidableEq

structure TUpdateInfoRequest where
  name : List UInt8 := []
  deriving DecidableEq

structure TChatRequest where
  message : List UInt8 := []
  deriving DecidableEq

structure TChatNtf where
  messageList : List (List UInt8) := []
  deriving DecidableEq

/-- The bytes of a text, or of each text of a list. -/
def optionalString (tag : ℕ) (s : List UInt8) : List UInt8 := if s ≠ [] then stringBytes tag s else []

def optionalStringSize (s : List UInt8) : ℕ := if s ≠ [] then 1 + lengthDelimitedSize s.length else 0

def repeatedStringSize (ss : List (List UInt8)) : ℕ :=
  ss.length + (ss.map fun s => lengthDelimitedSize s.length).sum

def Address.serialize (m : Address) : List UInt8 :=
  optionalString 10 m.addRess ++ if m.port ≠ 0 then uint32Bytes 16 m.port else []

def Address.byteSizeLong (m : Address) : ℕ :=
  optionalStringSize m.addRess + if m.port ≠ 0 then 1 + varintSize m.port.toNat else 0

def NoResponse.serialize (_ : NoResponse) : List UInt8 := []

def NoResponse.byteSizeLong (_ : NoResponse) : ℕ := 0

def SearchRequest.serialize (m : SearchRequest) : List UInt8 :=
  optionalString 10 m.query ++
  (if m.pageNumber ≠ 0 then int32Bytes 16 m.pageNumber else []) ++
  if m.resultPerPage ≠ 0 then int32Bytes 24 m.resultPerPage else []

def SearchRequest.byteSizeLong (m : SearchRequest) : ℕ :=
  optionalStringSize m.query +
  (if m.pageNumber ≠ 0 then 1 + int32Size m.pageNumber else 0) +
  if m.resultPerPage ≠ 0 then 1 + int32Size m.resultPerPage else 0

def Result.serialize (m : Result) : List UInt8 :=
  optionalString 10 m.url ++ optionalString 18 m.title ++ m.snippets.flatMap (stringBytes 26)

def Result.byteSizeLong (m : Result) : ℕ :=
  repeatedStringSize m.snippets + optionalStringSize m.url + optionalStringSize m.title

def SearchResponse.serialize (m : SearchResponse) : List UInt8 :=
  m.results.flatMap fun result => messageBytes 10 result.byteSizeLong result.serialize

def SearchResponse.byteSizeLong (m : SearchResponse) : ℕ :=
  m.results.length + (m.results.map fun result => lengthDelimitedSize result.byteSizeLong).sum

def TUpdateInfoRequest.serialize (m : TUpdateInfoRequest) : List UInt8 := optionalString 10 m.name

def TUpdateInfoRequest.byteSizeLong (m : TUpdateInfoRequest) : ℕ := optionalStringSize m.name

def TChatRequest.serialize (m : TChatRequest) : List UInt8 := optionalString 10 m.message

def TChatRequest.byteSizeLong (m : TChatRequest) : ℕ := optionalStringSize m.message

def TChatNtf.serialize (m : TChatNtf) : List UInt8 := m.messageList.flatMap (stringBytes 10)

def TChatNtf.byteSizeLong (m : TChatNtf) : ℕ := repeatedStringSize m.messageList

section Merges

def Address.mergeFrom (m other : Address) : Address :=
  let m := if other.addRess ≠ [] then { m with addRess := other.addRess } else m
  if other.port ≠ 0 then { m with port := other.port } else m

def NoResponse.mergeFrom (m _other : NoResponse) : NoResponse := m

def SearchRequest.mergeFrom (m other : SearchRequest) : SearchRequest :=
  let m := if other.query ≠ [] then { m with query := other.query } else m
  let m := if other.pageNumber ≠ 0 then { m with pageNumber := other.pageNumber } else m
  if other.resultPerPage ≠ 0 then { m with resultPerPage := other.resultPerPage } else m

def Result.mergeFrom (m other : Result) : Result :=
  let m := { m with snippets := m.snippets ++ other.snippets }
  let m := if other.url ≠ [] then { m with url := other.url } else m
  if other.title ≠ [] then { m with title := other.title } else m

def SearchResponse.mergeFrom (m other : SearchResponse) : SearchResponse :=
  { m with results := m.results ++ other.results }

def TUpdateInfoRequest.mergeFrom (m other : TUpdateInfoRequest) : TUpdateInfoRequest :=
  if other.name ≠ [] then { m with name := other.name } else m

def TChatRequest.mergeFrom (m other : TChatRequest) : TChatRequest :=
  if other.message ≠ [] then { m with message := other.message } else m

def TChatNtf.mergeFrom (m other : TChatNtf) : TChatNtf :=
  { m with messageList := m.messageList ++ other.messageList }

end Merges

section Parsers
variable (utf8 : List UInt8 → Bool)

def Address.type : MessageType Address where
  empty := {}
  field
    | 10 => some (stringField utf8 fun m s => { m with addRess := s })
    | 16 => some (uint32Field fun m v => { m with port := v })
    | _ => none

def NoResponse.type : MessageType NoResponse where
  empty := {}
  field _ := none

def SearchRequest.type : MessageType SearchRequest where
  empty := {}
  field
    | 10 => some (stringField utf8 fun m s => { m with query := s })
    | 16 => some (int32Field fun m v => { m with pageNumber := v })
    | 24 => some (int32Field fun m v => { m with resultPerPage := v })
    | _ => none

def Result.type : MessageType Result where
  empty := {}
  field
    | 10 => some (stringField utf8 fun m s => { m with url := s })
    | 18 => some (stringField utf8 fun m s => { m with title := s })
    | 26 => some (stringField utf8 fun m s => { m with snippets := m.snippets ++ [s] })
    | _ => none

def SearchResponse.type : MessageType SearchResponse where
  empty := {}
  field
    | 10 => some (messageField (Result.type utf8) fun m n => { m with results := m.results ++ [n] })
    | _ => none

def TUpdateInfoRequest.type : MessageType TUpdateInfoRequest where
  empty := {}
  field
    | 10 => some (stringField utf8 fun m s => { m with name := s })
    | _ => none

def TChatRequest.type : MessageType TChatRequest where
  empty := {}
  field
    | 10 => some (stringField utf8 fun m s => { m with message := s })
    | _ => none

def TChatNtf.type : MessageType TChatNtf where
  empty := {}
  field
    | 10 => some (stringField utf8 fun m s => { m with messageList := m.messageList ++ [s] })
    | _ => none

end Parsers

/-- How deep messages may be nested. -/
abbrev kDefaultRecursionLimit : ℕ := 100

/-- `ParseFromArray` on all the bytes. -/
def parseFromArray {M : Type} (T : MessageType M) (bs : List UInt8) : Option M := T.parse kDefaultRecursionLimit bs

/-- The texts that a parser accepts and that a size field can describe. -/
def TextFits (utf8 : List UInt8 → Bool) (s : List UInt8) : Prop := utf8 s = true ∧ s.length ≤ maxSize

section Sizes

lemma length_fixed32Bytes {tag : ℕ} (htag : tag < 128) (v : UInt32) : (fixed32Bytes tag v).length = 1 + 4 := by
  rw [fixed32Bytes, List.length_append, length_tag htag, length_leBytes]

lemma length_uint32Bytes {tag : ℕ} (htag : tag < 128) (v : UInt32) :
    (uint32Bytes tag v).length = 1 + varintSize v.toNat := by
  rw [uint32Bytes, List.length_append, length_tag htag, length_varint32]

lemma length_int32Bytes {tag : ℕ} (htag : tag < 128) (v : Int32) : (int32Bytes tag v).length = 1 + int32Size v := by
  rw [int32Bytes, List.length_append, length_tag htag, length_int32]

lemma length_stringBytes {tag : ℕ} (htag : tag < 128) {s : List UInt8} (hs : s.length ≤ maxSize) :
    (stringBytes tag s).length = 1 + lengthDelimitedSize s.length := by
  rw [stringBytes, List.length_append, length_tag htag, length_delimited hs]

lemma length_omitted {p : Prop} [Decidable p] {bs : List UInt8} {n : ℕ} (h : bs.length = n) :
    (if p then bs else []).length = if p then n else 0 := by
  split_ifs with hp
  · exact h
  · rfl

lemma length_optionalString {tag : ℕ} (htag : tag < 128) {s : List UInt8} (hs : s.length ≤ maxSize) :
    (optionalString tag s).length = optionalStringSize s := length_omitted (length_stringBytes htag hs)

lemma length_repeated {α : Type*} {enc : α → List UInt8} {size : α → ℕ} {xs : List α}
    (h : ∀ x ∈ xs, (enc x).length = 1 + size x) : (xs.flatMap enc).length = xs.length + (xs.map size).sum := by
  induction xs with
  | nil => rfl
  | cons x xs ih =>
    rw [List.flatMap_cons, List.length_append, h x List.mem_cons_self, ih fun y hy => h y (List.mem_cons_of_mem x hy),
      List.length_cons, List.map_cons, List.sum_cons]
    omega

end Sizes

/-- A type of messages with what its class generates, and the messages within the format's limits. -/
structure Codec (M : Type) where
  type : MessageType M
  serialize : M → List UInt8
  byteSizeLong : M → ℕ
  mergeFrom : M → M → M
  Fits : M → Prop

section Codecs
variable (utf8 : List UInt8 → Bool)

def headerCodec : Codec Header :=
  ⟨Header.type, Header.serialize, Header.byteSizeLong, Header.mergeFrom, fun _ => True⟩

def addressCodec : Codec Address :=
  ⟨Address.type utf8, Address.serialize, Address.byteSizeLong, Address.mergeFrom, fun m => TextFits utf8 m.addRess⟩

def noResponseCodec : Codec NoResponse :=
  ⟨NoResponse.type, NoResponse.serialize, NoResponse.byteSizeLong, NoResponse.mergeFrom, fun _ => True⟩

def searchRequestCodec : Codec SearchRequest :=
  ⟨SearchRequest.type utf8, SearchRequest.serialize, SearchRequest.byteSizeLong, SearchRequest.mergeFrom,
    fun m => TextFits utf8 m.query⟩

def Result.Fits (m : Result) : Prop :=
  TextFits utf8 m.url ∧ TextFits utf8 m.title ∧ ∀ s ∈ m.snippets, TextFits utf8 s

def resultCodec : Codec Result :=
  ⟨Result.type utf8, Result.serialize, Result.byteSizeLong, Result.mergeFrom, Result.Fits utf8⟩

def searchResponseCodec : Codec SearchResponse :=
  ⟨SearchResponse.type utf8, SearchResponse.serialize, SearchResponse.byteSizeLong, SearchResponse.mergeFrom,
    fun m => ∀ result ∈ m.results, result.Fits utf8 ∧ result.byteSizeLong ≤ maxSize⟩

def tUpdateInfoRequestCodec : Codec TUpdateInfoRequest :=
  ⟨TUpdateInfoRequest.type utf8, TUpdateInfoRequest.serialize, TUpdateInfoRequest.byteSizeLong,
    TUpdateInfoRequest.mergeFrom, fun m => TextFits utf8 m.name⟩

def tChatRequestCodec : Codec TChatRequest :=
  ⟨TChatRequest.type utf8, TChatRequest.serialize, TChatRequest.byteSizeLong, TChatRequest.mergeFrom,
    fun m => TextFits utf8 m.message⟩

def tChatNtfCodec : Codec TChatNtf :=
  ⟨TChatNtf.type utf8, TChatNtf.serialize, TChatNtf.byteSizeLong, TChatNtf.mergeFrom,
    fun m => ∀ s ∈ m.messageList, TextFits utf8 s⟩

end Codecs

namespace Codec
variable {M : Type} (C : Codec M)

/-- The announced size is the size; parsing merges a written message into the one that it fills. -/
structure Sound (depth : ℕ) : Prop where
  length : ∀ m, C.Fits m → (C.serialize m).length = C.byteSizeLong m
  encodes : ∀ m₀ m, C.Fits m → C.type.Encodes depth (C.serialize m) m₀ (C.mergeFrom m₀ m)
  merge_empty : ∀ m, C.mergeFrom C.type.empty m = m

/-- What a reader gets from written messages: the message, and one merged with the next. Fields that
it does not know leave the declared ones as they are. -/
structure RoundTrips : Prop where
  length : ∀ m, C.Fits m → (C.serialize m).length = C.byteSizeLong m
  parse : ∀ m, C.Fits m → parseFromArray C.type (C.serialize m) = some m
  merge : ∀ m m', C.Fits m → C.Fits m' →
    parseFromArray C.type (C.serialize m ++ C.serialize m') = some (C.mergeFrom m m')
  unknown : ∀ m us vs, C.Fits m → C.type.UnknownFields kDefaultRecursionLimit us →
    C.type.UnknownFields kDefaultRecursionLimit vs →
    parseFromArray C.type (us ++ C.serialize m ++ vs) = some m

variable {C}

lemma Sound.encodes_empty {depth : ℕ} (h : C.Sound depth) {m : M} (hm : C.Fits m) :
    C.type.Encodes depth (C.serialize m) C.type.empty m := by
  have henc := h.encodes C.type.empty m hm
  rwa [h.merge_empty] at henc

lemma Sound.roundTrips (h : C.Sound kDefaultRecursionLimit) : C.RoundTrips where
  length := h.length
  parse _ hm := (h.encodes_empty hm).parse
  merge m m' hm hm' := ((h.encodes_empty hm).append (h.encodes m m' hm')).parse
  unknown m _ _ hm hus hvs :=
    (((hus.encodes C.type.empty).append (h.encodes_empty hm)).append (hvs.encodes m)).parse

end Codec

lemma unless_default {M : Type} {p : Prop} [Decidable p] {m m' : M} (h : ¬ p → m = m') :
    (if p then m' else m) = m' := by
  split_ifs with hp
  · rfl
  · exact h hp

section Sound
variable {depth : ℕ}

lemma header_sound : headerCodec.Sound depth where
  length m _ := by
    simp only [headerCodec, Header.serialize, Header.byteSizeLong, List.length_append]
    rw [length_omitted (length_fixed32Bytes (by norm_num) m.serviceHash),
      length_omitted (length_uint32Bytes (by norm_num) m.methodId),
      length_omitted (length_uint32Bytes (by norm_num) m.token),
      length_omitted (length_uint32Bytes (by norm_num) m.size),
      length_omitted (length_int32Bytes (by norm_num) m.status)]
  encodes m₀ m _ := by
    have hserviceHash : ∀ m v, Header.type.Encodes depth (fixed32Bytes 13 v) m { m with serviceHash := v } :=
      fun m v => .fixed32 (by norm_num) (fun m v => { m with serviceHash := v }) rfl v m
    have hmethodId : ∀ m v, Header.type.Encodes depth (uint32Bytes 16 v) m { m with methodId := v } :=
      fun m v => .uint32 (by norm_num) (fun m v => { m with methodId := v }) rfl v m
    have htoken : ∀ m v, Header.type.Encodes depth (uint32Bytes 24 v) m { m with token := v } :=
      fun m v => .uint32 (by norm_num) (fun m v => { m with token := v }) rfl v m
    have hsize : ∀ m v, Header.type.Encodes depth (uint32Bytes 32 v) m { m with size := v } :=
      fun m v => .uint32 (by norm_num) (fun m v => { m with size := v }) rfl v m
    have hstatus : ∀ m v, Header.type.Encodes depth (int32Bytes 40 v) m { m with status := v } :=
      fun m v => .int32 (by norm_num) (fun m v => { m with status := v }) rfl v m
    exact ((((Encodes.optional fun _ => hserviceHash _ _).append (.optional fun _ => hmethodId _ _)).append
      (.optional fun _ => htoken _ _)).append (.optional fun _ => hsize _ _)).append (.optional fun _ => hstatus _ _)
  merge_empty m := by
    obtain ⟨serviceHash, methodId, token, size, status⟩ := m
    simp only [headerCodec, Header.mergeFrom, Header.type]
    rw [@unless_default _ _ _ _ ({ serviceHash } : Header) fun h => by rw [not_not.mp h]]
    rw [@unless_default _ _ _ _ ({ serviceHash, methodId } : Header) fun h => by rw [not_not.mp h]]
    rw [@unless_default _ _ _ _ ({ serviceHash, methodId, token } : Header) fun h => by rw [not_not.mp h]]
    rw [@unless_default _ _ _ _ ({ serviceHash, methodId, token, size } : Header) fun h => by rw [not_not.mp h]]
    rw [unless_default fun h => by rw [not_not.mp h]]

variable {utf8 : List UInt8 → Bool}

lemma address_sound : (addressCodec utf8).Sound depth where
  length m hm := by
    simp only [addressCodec, Address.serialize, Address.byteSizeLong, List.length_append]
    rw [length_optionalString (by norm_num) hm.2, length_omitted (length_uint32Bytes (by norm_num) m.port)]
  encodes m₀ m hm := by
    have hport : ∀ m v, (Address.type utf8).Encodes depth (uint32Bytes 16 v) m { m with port := v } :=
      fun m v => .uint32 (by norm_num) (fun m v => { m with port := v }) rfl v m
    have haddRess : ∀ m₀, (Address.type utf8).Encodes depth (stringBytes 10 m.addRess) m₀
        { m₀ with addRess := m.addRess } := fun m₀ =>
      @Encodes.string _ _ _ _ (by norm_num) utf8 (fun m s => { m with addRess := s }) rfl _ hm.1 hm.2 m₀
    exact (Encodes.optional fun _ => haddRess m₀).append (.optional fun _ => hport _ _)
  merge_empty m := by
    obtain ⟨addRess, port⟩ := m
    simp only [addressCodec, Address.mergeFrom, Address.type]
    rw [@unless_default _ _ _ _ ({ addRess } : Address) fun h => by rw [not_not.mp h]]
    rw [unless_default fun h => by rw [not_not.mp h]]

lemma noResponse_sound : noResponseCodec.Sound depth where
  length _ _ := rfl
  encodes m₀ _ _ := .nil m₀
  merge_empty _ := rfl

lemma searchRequest_sound : (searchRequestCodec utf8).Sound depth where
  length m hm := by
    simp only [searchRequestCodec, SearchRequest.serialize, SearchRequest.byteSizeLong, List.length_append]
    rw [length_optionalString (by norm_num) hm.2, length_omitted (length_int32Bytes (by norm_num) m.pageNumber),
      length_omitted (length_int32Bytes (by norm_num) m.resultPerPage)]
  encodes m₀ m hm := by
    have hquery : ∀ m₀, (SearchRequest.type utf8).Encodes depth (stringBytes 10 m.query) m₀
        { m₀ with query := m.query } := fun m₀ =>
      @Encodes.string _ _ _ _ (by norm_num) utf8 (fun m s => { m with query := s }) rfl _ hm.1 hm.2 m₀
    have hpageNumber : ∀ m v, (SearchRequest.type utf8).Encodes depth (int32Bytes 16 v) m
        { m with pageNumber := v } :=
      fun m v => .int32 (by norm_num) (fun m v => { m with pageNumber := v }) rfl v m
    have hresultPerPage : ∀ m v, (SearchRequest.type utf8).Encodes depth (int32Bytes 24 v) m
        { m with resultPerPage := v } :=
      fun m v => .int32 (by norm_num) (fun m v => { m with resultPerPage := v }) rfl v m
    exact ((Encodes.optional fun _ => hquery m₀).append (.optional fun _ => hpageNumber _ _)).append
      (.optional fun _ => hresultPerPage _ _)
  merge_empty m := by
    obtain ⟨query, pageNumber, resultPerPage⟩ := m
    simp only [searchRequestCodec, SearchRequest.mergeFrom, SearchRequest.type]
    rw [@unless_default _ _ _ _ ({ query } : SearchRequest) fun h => by rw [not_not.mp h]]
    rw [@unless_default _ _ _ _ ({ query, pageNumber } : SearchRequest) fun h => by rw [not_not.mp h]]
    rw [unless_default fun h => by rw [not_not.mp h]]

lemma length_repeatedStrings {tag : ℕ} (htag : tag < 128) {ss : List (List UInt8)} (h : ∀ s ∈ ss, TextFits utf8 s) :
    (ss.flatMap (stringBytes tag)).length = repeatedStringSize ss :=
  length_repeated fun s hs => length_stringBytes htag (h s hs).2

lemma foldl_snippets (m : Result) (ss : List (List UInt8)) :
    ss.foldl (fun m s => { m with snippets := m.snippets ++ [s] }) m = { m with snippets := m.snippets ++ ss } := by
  induction ss generalizing m with
  | nil => simp
  | cons s ss ih => simp [ih]

/-- The class merges the snippets first, and they are written last. -/
lemma mergeFrom_snippets (m₀ m : Result) :
    m₀.mergeFrom m =
      let m' := if m.url ≠ [] then { m₀ with url := m.url } else m₀
      let m' := if m.title ≠ [] then { m' with title := m.title } else m'
      { m' with snippets := m'.snippets ++ m.snippets } := by
  simp only [Result.mergeFrom]
  split_ifs
  all_goals rfl

lemma result_sound : (resultCodec utf8).Sound depth where
  length m hm := by
    obtain ⟨hurl, htitle, hsnippets⟩ := hm
    simp only [resultCodec, Result.serialize, Result.byteSizeLong, List.length_append]
    rw [length_optionalString (by norm_num) hurl.2, length_optionalString (by norm_num) htitle.2,
      length_repeatedStrings (by norm_num) hsnippets]
    omega
  encodes m₀ m hm := by
    obtain ⟨hurl, htitle, hsnippets⟩ := hm
    have hurl : ∀ m₀, (Result.type utf8).Encodes depth (stringBytes 10 m.url) m₀ { m₀ with url := m.url } :=
      fun m₀ => .string (by norm_num) (fun m s => { m with url := s }) rfl hurl.1 hurl.2 m₀
    have htitle : ∀ m₀, (Result.type utf8).Encodes depth (stringBytes 18 m.title) m₀ { m₀ with title := m.title } :=
      fun m₀ => .string (by norm_num) (fun m s => { m with title := s }) rfl htitle.1 htitle.2 m₀
    have hsnippet : ∀ s ∈ m.snippets, ∀ m₀, (Result.type utf8).Encodes depth (stringBytes 26 s) m₀
        { m₀ with snippets := m₀.snippets ++ [s] } := fun s hs m₀ =>
      .string (by norm_num) (fun m s => { m with snippets := m.snippets ++ [s] }) rfl (hsnippets s hs).1
        (hsnippets s hs).2 m₀
    have htexts : (Result.type utf8).Encodes depth (optionalString 10 m.url ++ optionalString 18 m.title) m₀ _ :=
      (Encodes.optional fun _ => hurl m₀).append (.optional fun _ => htitle _)
    have hall := htexts.append (.repeated hsnippet _)
    rw [foldl_snippets, ← mergeFrom_snippets] at hall
    exact hall
  merge_empty m := by
    obtain ⟨url, title, snippets⟩ := m
    simp only [resultCodec, Result.mergeFrom, Result.type, List.nil_append]
    rw [@unless_default _ _ _ _ ({ url, snippets } : Result) fun h => by rw [not_not.mp h]]
    rw [unless_default fun h => by rw [not_not.mp h]]

lemma foldl_results (m : SearchResponse) (rs : List Result) :
    rs.foldl (fun m n => { m with results := m.results ++ [n] }) m = { m with results := m.results ++ rs } := by
  induction rs generalizing m with
  | nil => simp
  | cons r rs ih => simp [ih]

lemma messageBytes_result {result : Result} (h : result.Fits utf8) :
    messageBytes 10 result.byteSizeLong result.serialize = stringBytes 10 result.serialize := by
  have hlen := (@result_sound 0 utf8).length result h
  rw [messageBytes, stringBytes]
  exact congrArg (fun size => varint 10 ++ (varint size ++ result.serialize)) hlen.symm

lemma searchResponse_sound : (searchResponseCodec utf8).Sound (depth + 1) where
  length m hm := by
    refine length_repeated fun result hr => ?_
    obtain ⟨hfits, hsize⟩ := hm result hr
    have hlen : result.serialize.length = result.byteSizeLong := (@result_sound 0 utf8).length result hfits
    rw [messageBytes_result hfits, length_stringBytes (by norm_num) (hlen.trans_le hsize), hlen]
  encodes m₀ m hm := by
    have hresult : ∀ result ∈ m.results, ∀ m₀, (SearchResponse.type utf8).Encodes (depth + 1)
        (messageBytes 10 result.byteSizeLong result.serialize) m₀ { m₀ with results := m₀.results ++ [result] } := by
      intro result hr m₀
      obtain ⟨hfits, hsize⟩ := hm result hr
      have hlen : result.serialize.length ≤ maxSize := ((@result_sound 0 utf8).length result hfits).trans_le hsize
      rw [messageBytes_result hfits]
      have hbytes : (Result.type utf8).Encodes depth result.serialize {} result := result_sound.encodes_empty hfits
      have htag : 10 < 2 ^ 32 := by norm_num
      exact @Encodes.message _ (SearchResponse.type utf8) _ _ _ htag _ _
        (fun m n => { m with results := m.results ++ [n] }) rfl _ hbytes hlen m₀
    have hall := Encodes.repeated hresult m₀
    rwa [foldl_results] at hall
  merge_empty _ := rfl

lemma tUpdateInfoRequest_sound : (tUpdateInfoRequestCodec utf8).Sound depth where
  length m hm := length_optionalString (by norm_num) hm.2
  encodes m₀ m hm :=
    .optional fun _ => .string (by norm_num) (fun m s => { m with name := s }) rfl hm.1 hm.2 m₀
  merge_empty m := unless_default fun h => by
    obtain ⟨name⟩ := m
    rw [show name = [] from not_not.mp h]
    rfl

lemma tChatRequest_sound : (tChatRequestCodec utf8).Sound depth where
  length m hm := length_optionalString (by norm_num) hm.2
  encodes m₀ m hm :=
    .optional fun _ => .string (by norm_num) (fun m s => { m with message := s }) rfl hm.1 hm.2 m₀
  merge_empty m := unless_default fun h => by
    obtain ⟨message⟩ := m
    rw [show message = [] from not_not.mp h]
    rfl

lemma foldl_messageList (m : TChatNtf) (ss : List (List UInt8)) :
    ss.foldl (fun m s => { m with messageList := m.messageList ++ [s] }) m =
      { m with messageList := m.messageList ++ ss } := by
  induction ss generalizing m with
  | nil => simp
  | cons s ss ih => simp [ih]

lemma tChatNtf_sound : (tChatNtfCodec utf8).Sound depth where
  length m hm := length_repeatedStrings (by norm_num) hm
  encodes m₀ m hm := by
    have hmessage : ∀ s ∈ m.messageList, ∀ m₀, (TChatNtf.type utf8).Encodes depth (stringBytes 10 s) m₀
        { m₀ with messageList := m₀.messageList ++ [s] } := fun s hs m₀ =>
      .string (by norm_num) (fun m s => { m with messageList := m.messageList ++ [s] }) rfl (hm s hs).1 (hm s hs).2 m₀
    have hall := Encodes.repeated hmessage m₀
    rwa [foldl_messageList] at hall
  merge_empty _ := rfl

end Sound

/-- Every message of the protocol comes back as it was written. -/
theorem messages_roundTrip (utf8 : List UInt8 → Bool) :
    headerCodec.RoundTrips ∧ (addressCodec utf8).RoundTrips ∧ noResponseCodec.RoundTrips ∧
      (searchRequestCodec utf8).RoundTrips ∧ (resultCodec utf8).RoundTrips ∧ (searchResponseCodec utf8).RoundTrips ∧
      (tUpdateInfoRequestCodec utf8).RoundTrips ∧ (tChatRequestCodec utf8).RoundTrips ∧
      (tChatNtfCodec utf8).RoundTrips :=
  ⟨header_sound.roundTrips, address_sound.roundTrips, noResponse_sound.roundTrips, searchRequest_sound.roundTrips,
    result_sound.roundTrips, searchResponse_sound.roundTrips, tUpdateInfoRequest_sound.roundTrips,
    tChatRequest_sound.roundTrips, tChatNtf_sound.roundTrips⟩

end TyphoonZero.Rpc
