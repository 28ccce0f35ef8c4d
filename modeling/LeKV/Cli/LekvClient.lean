import LeKV.Cli.RouteTable
import LeKV.Lib.OrderedCode

/-!
# The Python client's routing table (`test/lekv_client.py`)

`parseShardsBody` is what `LekvClient._parse_shards_body` does with the decoded body of a `SHARDS`
response, `findRoute` is `find_route`. The client compares strings by their code points and the Master
by the bytes of their encodings; `findRoute_agrees` says that they route every key alike.
-/

namespace LeKV.LekvClient

open Bytes Text

/-! ## Strings -/

/-- A `str`: a sequence of code points. -/
abbrev Str : Type := List Char

/-- `str.encode("utf-8")`. -/
def encode (s : Str) : Bytes := s.flatMap String.utf8EncodeChar

/-- `str.isspace` of one character. -/
def isspace (c : Char) : Bool :=
  (0x09 ≤ c.toNat && c.toNat ≤ 0x0D) || (0x1C ≤ c.toNat && c.toNat ≤ 0x20) || c.toNat = 0x85 ||
    c.toNat = 0xA0 || c.toNat = 0x1680 || (0x2000 ≤ c.toNat && c.toNat ≤ 0x200A) ||
    c.toNat = 0x2028 || c.toNat = 0x2029 || c.toNat = 0x202F || c.toNat = 0x205F || c.toNat = 0x3000

/-- `str.strip()`. -/
def strip (s : Str) : Str := (s.dropWhile isspace).rdropWhile isspace

/-- `str.split()`. -/
def split (s : Str) : List Str := wordsBy isspace s

/-- The digits of a number, which single underscores may separate. `after` says that a digit stands in
front. -/
def digits : (acc : ℕ) → (after : Bool) → Str → Option ℕ
  | acc, after, [] => if after then some acc else none
  | acc, after, c :: s =>
    if c.isDigit then digits (acc * 10 + (c.toNat - 0x30)) true s
    else if c = '_' ∧ after then digits acc false s
    else none

/-- `int(s)` of a text with no other digits than those of ASCII; `none` where it raises. -/
def int (s : Str) : Option ℤ :=
  match strip s with
  | '-' :: s => (digits 0 false s).map fun n => -(n : ℤ)
  | '+' :: s => (digits 0 false s).map fun n => (n : ℤ)
  | s => (digits 0 false s).map fun n => (n : ℤ)

/-! ## The table and the lookup -/

/-- `TabletInfo`. -/
structure TabletInfo where
  id : ℤ
  start : Str
  end_ : Str
  addr : Str
deriving DecidableEq, Repr

/-- One segment `id:start:end:ip:port`: `some none` where it has fewer than five fields and is
skipped, `none` where `int` raises. -/
def parseSegment (seg : Str) : Option (Option TabletInfo) :=
  match seg.splitOn ':' with
  | tid :: start :: end_ :: host :: port :: _ =>
    (int tid).map fun tid => some ⟨tid, start, end_, host ++ ':' :: port⟩
  | _ => some none

/-- `LekvClient._parse_shards_body`; `none` where it raises. -/
def parseShardsBody (body : Str) : Option (List TabletInfo) :=
  match split (strip body) with
  | [] => some []
  | count :: segs => do
    let _count ← int count
    let tablets ← segs.mapM parseSegment
    return (tablets.filterMap id).insertionSort fun a b => a.start ≤ b.start

/-- `LekvClient.find_route`. -/
def findRoute (key : Str) (tablets : List TabletInfo) : Option Str :=
  let left := Search.boundary (fun mid => tablets[mid]?.any fun t => t.start ≤ key)
    tablets.length 0 tablets.length
  if left = 0 then none
  else
    match tablets[left - 1]? with
    | none => none
    | some t => if t.end_ ≠ [] ∧ t.end_ ≤ key then none else some t.addr

/-- The boundaries of a tablet, decoded. -/
structure Decodes (t : Tablet) (info : TabletInfo) : Prop where
  start : encode info.start = t.startKey
  end_ : encode info.end_ = t.endKey

/-- A string that the text format can carry: no colon and no whitespace. -/
def PlainStr (s : Str) : Prop := ∀ c ∈ s, c ≠ ':' ∧ isspace c = false

/-! ## The lookup -/

theorem encode_append (s t : Str) : encode (s ++ t) = encode s ++ encode t := List.flatMap_append

theorem encode_cons (c : Char) (s : Str) : encode (c :: s) = String.utf8EncodeChar c ++ encode s :=
  List.flatMap_cons

theorem encode_eq_nil {s : Str} : encode s = [] ↔ s = [] := by
  rw [← orderedCode_utf8.flatMap_injective.eq_iff]
  rfl

theorem encode_le_iff {s t : Str} : encode s ≤ encode t ↔ s ≤ t := orderedCode_utf8.flatMap_le_iff

/-- The lookup in a decoded table is the Master's. -/
theorem findRoute_decoded {tablets : List Tablet} {decode : Tablet → TabletInfo}
    (hdecode : ∀ t ∈ tablets, Decodes t (decode t)) (key : Str) :
    findRoute key (tablets.map decode)
      = (getTabletRoute tablets (encode key)).map fun t => (decode t).addr := by
  have htest : (fun mid => (tablets.map decode)[mid]?.any fun t => t.start ≤ key)
      = startsBefore tablets (encode key) := by
    funext mid
    rw [startsBefore, List.getElem?_map, Option.any_map]
    rcases hmid : tablets[mid]? with _ | t
    · rfl
    · have hd := hdecode t (List.mem_of_getElem? hmid)
      show decide ((decode t).start ≤ key) = decide (t.startKey ≤ encode key)
      rw [← hd.start, decide_eq_decide, encode_le_iff]
  rw [findRoute, getTabletRoute, findTabletIndex, htest, List.length_map]
  by_cases hnil : tablets = []
  · simp [hnil, Search.boundary]
  rw [if_neg hnil]
  generalize Search.boundary (startsBefore tablets (encode key)) tablets.length 0 tablets.length
    = left
  by_cases hleft : left = 0
  · simp [hleft]
  simp only [if_neg hleft, List.getElem?_map]
  rcases hlast : tablets[left - 1]? with _ | t
  · rfl
  have hd := hdecode t (List.mem_of_getElem? hlast)
  have hend : (decode t).end_ ≠ [] ∧ (decode t).end_ ≤ key
      ↔ t.endKey ≠ [] ∧ t.endKey ≤ encode key := by
    rw [← hd.end_, encode_le_iff, Ne, Ne, encode_eq_nil]
  simp only [Option.map_some, hend]
  split_ifs <;> rfl

/-! ## Numbers and addresses -/

/-- ASCII bytes as a string. -/
def ofAscii (b : Bytes) : Str := b.map fun x => Char.ofNat x.toNat

/-- A byte of a number or of an address: a digit or a dot. -/
def Dotted (b : UInt8) : Prop := isDigit b = true ∨ b = 0x2E

theorem Dotted.char {b : UInt8} (h : Dotted b) :
    String.utf8EncodeChar (Char.ofNat b.toNat) = [b] ∧ Char.ofNat b.toNat ≠ ':' ∧
      isspace (Char.ofNat b.toNat) = false := by
  have hall : ∀ n < 58, 46 ≤ n → String.utf8EncodeChar (Char.ofNat n) = [UInt8.ofNat n] ∧
      Char.ofNat n ≠ ':' ∧ isspace (Char.ofNat n) = false := by decide
  have hrange : b.toNat < 58 ∧ 46 ≤ b.toNat := by
    rcases h with h | rfl
    · simp only [isDigit, Bool.and_eq_true, decide_eq_true_eq, UInt8.le_iff_toNat_le,
        UInt8.reduceToNat] at h
      omega
    · decide
  have hb := hall b.toNat hrange.1 hrange.2
  rwa [UInt8.ofNat_toNat] at hb

theorem encode_ofAscii {b : Bytes} (h : ∀ x ∈ b, Dotted x) : encode (ofAscii b) = b := by
  induction b with
  | nil => rfl
  | cons x b ih =>
    have hx := (h x List.mem_cons_self).char.1
    rw [ofAscii, List.map_cons, encode_cons, hx]
    exact congrArg (x :: ·) (ih fun y hy => h y (List.mem_cons_of_mem _ hy))

theorem plainStr_ofAscii {b : Bytes} (h : ∀ x ∈ b, Dotted x) : PlainStr (ofAscii b) := by
  intro c hc
  obtain ⟨x, hx, rfl⟩ := List.mem_map.mp hc
  exact (h x hx).char.2

theorem dotted_decimal {n : ℕ} : ∀ x ∈ decimal n, Dotted x :=
  fun _ hx => .inl (isDigit_of_mem_decimal hx)

/-- A digit, read by `int`. -/
theorem digit_char {b : UInt8} (h : isDigit b = true) :
    (Char.ofNat b.toNat).isDigit = true ∧ (Char.ofNat b.toNat).toNat = b.toNat ∧
      Char.ofNat b.toNat ≠ '-' ∧ Char.ofNat b.toNat ≠ '+' := by
  have hall : ∀ n < 58, 48 ≤ n → (Char.ofNat n).isDigit = true ∧ (Char.ofNat n).toNat = n ∧
      Char.ofNat n ≠ '-' ∧ Char.ofNat n ≠ '+' := by decide
  simp only [isDigit, Bool.and_eq_true, decide_eq_true_eq, UInt8.le_iff_toNat_le,
    UInt8.reduceToNat] at h
  exact hall b.toNat (by omega) h.1

theorem digits_ofAscii {b : Bytes} (h : ∀ x ∈ b, isDigit x = true) (acc : ℕ) :
    digits acc true (ofAscii b) = some (b.foldl (fun acc x => acc * 10 + (x.toNat - 0x30)) acc) := by
  induction b generalizing acc with
  | nil => rfl
  | cons x b ih =>
    obtain ⟨hdigit, hval, -⟩ := digit_char (h x List.mem_cons_self)
    rw [ofAscii, List.map_cons, digits, if_pos hdigit, hval]
    exact ih (fun y hy => h y (List.mem_cons_of_mem _ hy)) _

theorem strip_of_plain {s : Str} (h : PlainStr s) : strip s = s := by
  have hnone : ∀ c ∈ s, ¬isspace c = true := fun c hc => by simp [(h c hc).2]
  have hfront : s.dropWhile isspace = s := by
    rcases s with _ | ⟨c, s⟩
    · rfl
    · exact List.dropWhile_cons_of_neg (hnone c List.mem_cons_self)
  rw [strip, hfront, List.rdropWhile_eq_self_iff]
  exact fun hne => hnone _ (List.getLast_mem hne)

/-- `int` reads back what `std::to_string` wrote. -/
theorem int_decimal (n : ℕ) : int (ofAscii (decimal n)) = some (n : ℤ) := by
  have hall : ∀ x ∈ decimal n, isDigit x = true := fun x => isDigit_of_mem_decimal
  have hvalue : digits 0 false (ofAscii (decimal n)) = some n := by
    rw [← congrArg some (digitsValue_decimal n), digitsValue]
    obtain ⟨x, b, hb⟩ := List.exists_cons_of_ne_nil (decimal_ne_nil n)
    rw [hb] at hall ⊢
    obtain ⟨hdigit, hval, -⟩ := digit_char (hall x List.mem_cons_self)
    rw [ofAscii, List.map_cons, digits, if_pos hdigit, hval]
    exact digits_ofAscii (fun y hy => hall y (List.mem_cons_of_mem _ hy)) _
  have hsign : ∀ c s, ofAscii (decimal n) = c :: s → c ≠ '-' ∧ c ≠ '+' := by
    intro c s hcons
    have hc : c ∈ ofAscii (decimal n) := hcons ▸ List.mem_cons_self
    obtain ⟨x, hx, rfl⟩ := List.mem_map.mp hc
    exact (digit_char (hall x hx)).2.2
  rw [int, strip_of_plain (plainStr_ofAscii dotted_decimal)]
  split
  · rename_i hminus
    exact absurd rfl (hsign _ _ hminus).1
  · rename_i hplus
    exact absurd rfl (hsign _ _ hplus).2
  · rw [hvalue]
    rfl

/-! ## The body comes back -/

theorem PlainStr.colon_notMem {s : Str} (h : PlainStr s) : ':' ∉ s := fun hmem => (h ':' hmem).1 rfl

section Body

variable {peers : List PeerInfo} {decode : Tablet → TabletInfo} {t : Tablet}

/-- A decoded tablet whose segment the text format can carry. -/
structure Carried (peers : List PeerInfo) (t : Tablet) (info : TabletInfo) (host port : Str) : Prop
    extends Decodes t info where
  id : info.id = t.id.toNat
  addr : info.addr = host ++ ':' :: port
  encode_addr : encode info.addr = getNodeAddr peers t.nodeId
  plain : PlainStr info.start ∧ PlainStr info.end_ ∧ PlainStr host ∧ PlainStr port

/-- One tablet of the body. -/
def segment (t : Tablet) (info : TabletInfo) : Str :=
  ofAscii (decimal t.id.toNat) ++ ':' :: (info.start ++ ':' :: (info.end_ ++ ':' :: info.addr))

theorem encode_segment {info : TabletInfo} {host port : Str} (h : Carried peers t info host port) :
    encode (segment t info) = shardSegment peers t := by
  have hcolon : ∀ s : Str, encode (':' :: s) = COLON :: encode s := fun s => rfl
  rw [segment, shardSegment, encode_append, hcolon, encode_append, hcolon, encode_append, hcolon,
    encode_ofAscii dotted_decimal, h.start, h.end_, h.encode_addr]

theorem parseSegment_segment {info : TabletInfo} {host port : Str}
    (h : Carried peers t info host port) : parseSegment (segment t info) = some (some info) := by
  obtain ⟨hstart, hend, hhost, hport⟩ := h.plain
  have hsplit : (segment t info).splitOn ':'
      = [ofAscii (decimal t.id.toNat), info.start, info.end_, host, port] := by
    rw [segment, h.addr,
      List.splitOn_append_cons_self_of_not_mem (plainStr_ofAscii dotted_decimal).colon_notMem,
      List.splitOn_append_cons_self_of_not_mem hstart.colon_notMem,
      List.splitOn_append_cons_self_of_not_mem hend.colon_notMem,
      List.splitOn_append_cons_self_of_not_mem hhost.colon_notMem,
      List.splitOn_eq_singleton hport.colon_notMem]
  rw [parseSegment, hsplit]
  dsimp only
  rw [int_decimal, Option.map_some, ← h.addr, ← h.id]

/-- A segment is one word. -/
theorem segment_word {info : TabletInfo} {host port : Str} (h : Carried peers t info host port) :
    segment t info ≠ [] ∧ ∀ c ∈ segment t info, isspace c = false := by
  obtain ⟨hstart, hend, hhost, hport⟩ := h.plain
  refine ⟨by simp [segment], fun c hc => ?_⟩
  have hcolon : ∀ a b : Str, PlainStr a → (∀ c ∈ b, isspace c = false) →
      ∀ c ∈ a ++ ':' :: b, isspace c = false := by
    intro a b ha hb c hc
    rcases List.mem_append.mp hc with hc | hc
    · exact (ha c hc).2
    · rcases List.mem_cons.mp hc with rfl | hc
      · decide
      · exact hb c hc
  rw [segment, h.addr] at hc
  exact hcolon _ _ (plainStr_ofAscii dotted_decimal) (hcolon _ _ hstart (hcolon _ _ hend
    (hcolon _ _ hhost fun c hc => (hport c hc).2))) c hc

theorem encode_intercalate (l : List Str) :
    encode ([' '].intercalate l) = [SPACE].intercalate (l.map encode) := by
  induction l with
  | nil => rfl
  | cons a l ih =>
    rcases l with _ | ⟨b, l⟩
    · rw [List.intercalate_singleton, List.map_singleton, List.intercalate_singleton]
    · rw [List.intercalate_cons_cons, encode_append, encode_append, ih]
      simp only [List.map_cons, List.intercalate_cons_cons]
      rfl

/-- The body of a response, as a string. -/
def bodyText (tablets : List Tablet) (decode : Tablet → TabletInfo) : Str :=
  ofAscii (decimal (tablets.length % 2 ^ 64)) ++ ' ' ::
    [' '].intercalate (tablets.map fun t => segment t (decode t))

variable {tablets : List Tablet} {host port : Tablet → Str}
  (hcarried : ∀ t ∈ tablets, Carried peers t (decode t) (host t) (port t))

include hcarried

theorem encode_bodyText : encode (bodyText tablets decode) = shardsBody peers tablets := by
  have hsegments : (tablets.map fun t => segment t (decode t)).map encode
      = tablets.map (shardSegment peers) := by
    rw [List.map_map]
    exact List.map_congr_left fun t ht => encode_segment (hcarried t ht)
  rw [bodyText, shardsBody, encode_append, encode_ofAscii dotted_decimal, encode_cons,
    encode_intercalate, hsegments]
  rfl

/-- The client gets back a tiling table. -/
theorem parseShardsBody_bodyText (htiles : Tiles tablets) :
    parseShardsBody (bodyText tablets decode) = some (tablets.map decode) := by
  have hwords : ∀ w ∈ tablets.map fun t => segment t (decode t),
      w ≠ [] ∧ ∀ c ∈ w, isspace c = false := by
    intro w hw
    obtain ⟨t, ht, rfl⟩ := List.mem_map.mp hw
    exact segment_word (hcarried t ht)
  have hcount : ofAscii (decimal (tablets.length % 2 ^ 64)) ≠ [] := by
    simpa [ofAscii] using decimal_ne_nil _
  have hsplit : split (strip (bodyText tablets decode))
      = ofAscii (decimal (tablets.length % 2 ^ 64)) :: tablets.map fun t => segment t (decode t) := by
    rw [split, strip, wordsBy_rdropWhile, wordsBy_dropWhile, bodyText, wordsBy_append_cons (by decide),
      wordsBy_word hcount fun c hc => (plainStr_ofAscii dotted_decimal c hc).2,
      wordsBy_intercalate (by decide) hwords]
    rfl
  have hparse : (tablets.map fun t => segment t (decode t)).mapM parseSegment
      = some (tablets.map fun t => some (decode t)) := by
    rw [List.mapM_map]
    exact mapM_some fun t ht => parseSegment_segment (hcarried t ht)
  have hfilter : (tablets.map fun t => some (decode t)).filterMap id = tablets.map decode := by
    rw [List.filterMap_map]
    exact congrFun List.filterMap_eq_map tablets
  have hsorted : (tablets.map decode).Pairwise fun a b => a.start ≤ b.start := by
    refine List.pairwise_map.mpr (htiles.starts_increase.imp_of_mem fun ha hb hlt => ?_)
    rw [← encode_le_iff, (hcarried _ ha).start, (hcarried _ hb).start]
    exact hlt.le
  rw [parseShardsBody, hsplit]
  dsimp only
  rw [int_decimal, hparse, Option.bind_eq_bind, Option.bind_some, Option.bind_eq_bind,
    Option.bind_some, hfilter, hsorted.insertionSort_eq]
  rfl

end Body

/-- A tablet with plain boundaries on a configured node can be carried. -/
theorem exists_carried {peers : List PeerInfo} (hpeers : ConfiguredPeers peers) {t : Tablet}
    (hnode : t.nodeId ∈ dataNodes peers)
    (hplain : ∃ info, Decodes t info ∧ PlainStr info.start ∧ PlainStr info.end_) :
    ∃ info host port, Carried peers t info host port := by
  obtain ⟨p, hp, -, haddr⟩ := getNodeAddr_eq hpeers hnode
  obtain ⟨info, hdecodes, hstart, hend⟩ := hplain
  have hip : ∀ x ∈ p.ip, Dotted x := hpeers.ip p hp
  let addr : Str := ofAscii p.ip ++ ':' :: ofAscii (decimal p.port.toNat)
  have hencode : encode addr = getNodeAddr peers t.nodeId := by
    rw [haddr, encode_append, encode_cons, encode_ofAscii hip, encode_ofAscii dotted_decimal]
    rfl
  exact ⟨⟨t.id.toNat, info.start, info.end_, addr⟩, _, _, ⟨hdecodes.start, hdecodes.end_⟩, rfl, rfl,
    hencode, hstart, hend, plainStr_ofAscii hip, plainStr_ofAscii dotted_decimal⟩

/-- On every tiling table whose boundaries encode strings without colons and whitespace, the client's
lookup finds, for every string, the address of the tablet that the Master finds for its encoding: in
the decoded table, and in what the client makes of the Master's list of a configured cluster. -/
theorem findRoute_agrees {tablets : List Tablet} (htiles : Tiles tablets)
    (hplain : ∀ t ∈ tablets, ∃ info, Decodes t info ∧ PlainStr info.start ∧ PlainStr info.end_) :
    (∀ decode : Tablet → TabletInfo, (∀ t ∈ tablets, Decodes t (decode t)) → ∀ key,
      ∃ t ∈ tablets, getTabletRoute tablets (encode key) = some t ∧
        findRoute key (tablets.map decode) = some (decode t).addr) ∧
    ∀ peers, ConfiguredPeers peers → Assigned (dataNodes peers) tablets →
      ∃ body table, encode body = shardsBody peers tablets ∧ parseShardsBody body = some table ∧
        ∀ key, ∃ t ∈ tablets, getTabletRoute tablets (encode key) = some t ∧
          (findRoute key table).map encode = some (getNodeAddr peers t.nodeId) := by
  refine ⟨fun decode hdecode key => ?_, fun peers hpeers hassigned => ?_⟩
  · obtain ⟨t, ht, hroute, -⟩ := htiles.getTabletRoute_isSome (encode key)
    exact ⟨t, ht, hroute, by rw [findRoute_decoded hdecode, hroute, Option.map_some]⟩
  · have : Nonempty TabletInfo := ⟨⟨0, [], [], []⟩⟩
    have hexists : ∀ t ∈ tablets, ∃ info host port, Carried peers t info host port :=
      fun t ht => exists_carried hpeers (hassigned t ht) (hplain t ht)
    choose! decode host port hcarried using hexists
    refine ⟨bodyText tablets decode, tablets.map decode, encode_bodyText hcarried,
      parseShardsBody_bodyText hcarried htiles, fun key => ?_⟩
    obtain ⟨t, ht, hroute, -⟩ := htiles.getTabletRoute_isSome (encode key)
    refine ⟨t, ht, hroute, ?_⟩
    rw [findRoute_decoded fun u hu => (hcarried u hu).toDecodes, hroute, Option.map_some,
      Option.map_some, (hcarried t ht).encode_addr]

/-- A table that is cut at `é`. -/
def cutAtE : List Tablet := [⟨1, [], [0xC3, 0xA9], 2, 0⟩, ⟨2, [0xC3, 0xA9], [], 3, 0⟩]

/-- Client and Master agree on it. -/
theorem findRoute_agrees_cutAtE : ∃ body table, encode body = shardsBody twoNodes cutAtE ∧
    parseShardsBody body = some table ∧ ∀ key, ∃ t ∈ cutAtE,
      getTabletRoute cutAtE (encode key) = some t ∧
        (findRoute key table).map encode = some (getNodeAddr twoNodes t.nodeId) := by
  have htiles : Tiles cutAtE := ⟨rfl, rfl, List.nil_lt_cons _ _, rfl, rfl⟩
  have hplain : ∀ s : Str, s = [] ∨ s = ['é'] → PlainStr s := by
    rintro s (rfl | rfl)
    · exact fun c hc => absurd hc List.not_mem_nil
    · intro c hc
      obtain rfl := List.mem_singleton.mp hc
      decide
  refine (findRoute_agrees htiles fun t ht => ?_).2 twoNodes configuredPeers_twoNodes ?_
  · rcases List.mem_cons.mp ht with rfl | ht
    · exact ⟨⟨1, [], ['é'], []⟩, ⟨rfl, by decide⟩, hplain _ (.inl rfl), hplain _ (.inr rfl)⟩
    · obtain rfl := List.mem_singleton.mp ht
      exact ⟨⟨2, ['é'], [], []⟩, ⟨by decide, rfl⟩, hplain _ (.inr rfl), hplain _ (.inl rfl)⟩
  · unfold Assigned
    decide

end LeKV.LekvClient
