import LeKV.Common

/-!
# The saved routing table (`tablets.json`)

`SaveTablets` writes the counters and the tablets as JSON, `LoadTablets` reads them back. The JSON
library round-trips integers and valid UTF-8; its `dump` throws on other strings. A `SavedText` is a
text that `dump` did produce, so the boundaries of its document are valid UTF-8.
-/

namespace LeKV

/-! ## UTF-8, as the serializer's decoder accepts it -/

/-- The ranges in which the bytes after a leading byte have to lie, `none` for a byte that cannot
lead. -/
def utf8Tail (b : UInt8) : Option (List (UInt8 × UInt8)) :=
  if b ≤ 0x7F then some []
  else if b < 0xC2 then none
  else if b ≤ 0xDF then some [(0x80, 0xBF)]
  else if b = 0xE0 then some [(0xA0, 0xBF), (0x80, 0xBF)]
  else if b = 0xED then some [(0x80, 0x9F), (0x80, 0xBF)]
  else if b ≤ 0xEF then some [(0x80, 0xBF), (0x80, 0xBF)]
  else if b = 0xF0 then some [(0x90, 0xBF), (0x80, 0xBF), (0x80, 0xBF)]
  else if b ≤ 0xF3 then some [(0x80, 0xBF), (0x80, 0xBF), (0x80, 0xBF)]
  else if b = 0xF4 then some [(0x80, 0x8F), (0x80, 0xBF), (0x80, 0xBF)]
  else none

/-- The decoder's run over a string: the first argument is what the current character still needs. -/
def utf8From : List (UInt8 × UInt8) → Bytes → Bool
  | [], [] => true
  | _ :: _, [] => false
  | [], b :: bs =>
    match utf8Tail b with
    | none => false
    | some ranges => utf8From ranges bs
  | (lo, hi) :: ranges, b :: bs => decide (lo ≤ b) && decide (b ≤ hi) && utf8From ranges bs

/-- The string is valid UTF-8. -/
def validUtf8 (s : Bytes) : Bool := utf8From [] s

/-! ## Documents and files -/

/-- The JSON value `SaveTablets` builds. -/
structure Document where
  nextTabletId : UInt64
  epoch : UInt64
  tablets : List Tablet
deriving DecidableEq, Repr

/-- All strings of the document are valid UTF-8. -/
def Document.Dumpable (d : Document) : Prop :=
  ∀ t ∈ d.tablets, validUtf8 t.startKey = true ∧ validUtf8 t.endKey = true

instance (d : Document) : Decidable d.Dumpable :=
  inferInstanceAs (Decidable (∀ t ∈ d.tablets, _))

/-- A text `dump` produced. -/
def SavedText : Type := { d : Document // d.Dumpable }

/-- `j.dump(2)`: `none` is the exception on a string that is not UTF-8. -/
def dump (d : Document) : Option SavedText := if h : d.Dumpable then some ⟨d, h⟩ else none

/-- What a file holds: a whole text, or a part of one, which does not parse. -/
inductive FileContent where
  | text (t : SavedText)
  | torn

/-- The tables of the Master's file: `tablets.json` and the temporary file beside it. -/
structure Files where
  file : Option FileContent
  tmp : Option FileContent

/-- What `LoadTablets` reads: `none` where the file does not exist, `some none` where it does not
parse. -/
def FileContent.parse : FileContent → Option Document
  | .text t => some t.1
  | .torn => none

theorem dump_eq_some {d : Document} {t : SavedText} (h : dump d = some t) : t.1 = d := by
  unfold dump at h
  split_ifs at h with hd
  exact congrArg Subtype.val (Option.some.inj h).symm

end LeKV
