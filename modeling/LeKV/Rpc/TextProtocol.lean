import LeKV.Lib.InputStream

/-!
# Text commands (`rpc/text_protocol.cpp`)

`parse` is `TextProtocol::Parse`. One string variable carries the arguments out of the stream and
then the rest of the line, and an extraction that fails leaves the last argument in it: with one to
five arguments, the last one is appended a second time (`parse_formatLine_iff`).
-/

namespace LeKV

namespace TextProtocol

open InputStream Text

/-- The bytes around and between the words of a line. -/
def BLANK : UInt8 := 0x20
def CR : UInt8 := 0x0D
def LF : UInt8 := 0x0A

/-- `Command`. -/
structure Command where
  name : Bytes
  args : List Bytes
deriving DecidableEq, Repr

/-- `toupper` in the C locale. -/
def toUpper (b : UInt8) : UInt8 := if 0x61 ≤ b && b ≤ 0x7A then b - 0x20 else b

/-- `pop_back` where the last byte is `b`. -/
def popBack (b : UInt8) (s : Bytes) : Bytes := if s.getLast? = some b then s.dropLast else s

/-- The stream, the variable `arg` and the arguments found so far. -/
structure Scan where
  iss : IStream
  arg : Bytes
  args : List Bytes

/-- `for (int i = 0 ; i < 5 && iss >> arg ; ++i)`, with `n` rounds left. -/
def argLoop : ℕ → Scan → Scan
  | 0, scan => scan
  | n + 1, scan =>
    let r := scan.iss.extract scan.arg
    if r.1.fail then ⟨r.1, r.2, scan.args⟩ else argLoop n ⟨r.1, r.2, scan.args ++ [r.2]⟩

/-- What is left of the line behind the five arguments becomes one more. -/
def lastArg (scan : Scan) : List Bytes :=
  let arg := (scan.iss.getline scan.arg).2
  if arg = [] then scan.args else scan.args ++ [arg.dropWhile (· = BLANK)]

/-- `TextProtocol::Parse`. -/
def parse (line : Bytes) : Option Command :=
  if line = [] then none
  else
    let trimmed := popBack CR (popBack LF line)
    if trimmed = [] then none
    else
      let r := (IStream.ofBytes trimmed).extract []
      if r.1.fail then none
      else some ⟨r.2.map toUpper, lastArg (argLoop 5 ⟨r.1, [], []⟩)⟩

/-- `TextProtocol::Err`. -/
def err (code msg : Bytes) : Bytes :=
  [0x2D, 0x45, 0x52, 0x52, BLANK] ++ code ++ BLANK :: msg ++ [CR, LF]

/-! ## What a client writes -/

/-- A word: not empty, and without whitespace. -/
def IsWord (w : Bytes) : Prop := w ≠ [] ∧ ∀ b ∈ w, isSpace b = false

instance (w : Bytes) : Decidable (IsWord w) :=
  haveI : Decidable (∀ b ∈ w, isSpace b = false) := List.decidableBAll _ w
  inferInstanceAs (Decidable (_ ∧ _))

/-- A line with a command: name and arguments joined by single blanks. -/
def formatLine (name : Bytes) (args : List Bytes) : Bytes :=
  [BLANK].intercalate (name :: args) ++ [CR, LF]

/-- The arguments that are to come out: the first five, and the rest of the line as one more. -/
def expectedArgs (args : List Bytes) : List Bytes :=
  if args.length ≤ 5 then args else args.take 5 ++ [[BLANK].intercalate (args.drop 5)]

/-- The arguments with a blank in front of each. -/
def joined (args : List Bytes) : Bytes := args.flatMap fun a => BLANK :: a

theorem joined_cons (a : Bytes) (args : List Bytes) : joined (a :: args) = BLANK :: (a ++ joined args) :=
  List.flatMap_cons

theorem intercalate_eq_joined (w : Bytes) (args : List Bytes) :
    [BLANK].intercalate (w :: args) = w ++ joined args := by
  induction args generalizing w with
  | nil => simp [joined]
  | cons a args ih =>
    rw [List.intercalate_cons_cons, ih, joined_cons, List.append_assoc, List.singleton_append]

section Parse

variable {name s : Bytes} {args : List Bytes}

/-- Behind a word comes a blank, the given rest of the line, or its end. -/
theorem isSpace_of_mem_head_joined (hs : ∀ b ∈ s.head?, isSpace b = true) :
    ∀ b ∈ (joined args ++ s).head?, isSpace b = true := by
  rcases args with _ | ⟨a, args⟩
  · exact hs
  · intro b hb
    obtain rfl : BLANK = b := by simpa [joined_cons] using hb
    rfl

/-- The loop reads the words that are there. -/
theorem argLoop_words (hargs : ∀ a ∈ args, IsWord a) (hs : ∀ b ∈ s.head?, isSpace b = true) (n : ℕ)
    (arg : Bytes) (found : List Bytes) :
    argLoop (args.length + n) ⟨.before (joined args ++ s), arg, found⟩
      = argLoop n ⟨.before s, args.getLastD arg, found ++ args⟩ := by
  induction args generalizing arg found with
  | nil => simp [joined]
  | cons a args ih =>
    obtain ⟨hne, ha⟩ := hargs a List.mem_cons_self
    have hrest := ih fun b hb => hargs b (List.mem_cons_of_mem a hb)
    have hread : (IStream.before (joined (a :: args) ++ s)).extract arg
        = (.before (joined args ++ s), a) := by
      have hspace : ∀ b ∈ [BLANK], isSpace b = true := fun b hb => List.mem_singleton.mp hb ▸ rfl
      rw [joined_cons, List.cons_append, List.append_assoc]
      exact extract_word hspace hne ha (isSpace_of_mem_head_joined hs) arg
    rw [List.length_cons, Nat.add_right_comm, argLoop]
    have hok : (IStream.before (joined args ++ s)).fail = false := rfl
    simp only [hread, hok, Bool.false_eq_true, if_false]
    rw [hrest, List.getLastD_cons, List.append_assoc, List.singleton_append]

/-- At the end of the line nothing more is read, and the variable stays as it is. -/
theorem lastArg_argLoop_end (n : ℕ) (arg : Bytes) (found : List Bytes) :
    lastArg (argLoop n ⟨.before [], arg, found⟩)
      = if arg = [] then found else found ++ [arg.dropWhile (· = BLANK)] := by
  rcases n with _ | n
  · rw [argLoop, lastArg, getline_of_not_good rfl]
  · have hread : (IStream.before []).extract arg = (⟨[], true, true⟩, arg) :=
      extract_of_not_good rfl arg
    rw [argLoop]
    simp only [hread, if_true]
    rw [lastArg, getline_of_not_good rfl]

/-- A line with at most five arguments, and the rest `s` behind them. -/
theorem parse_line (hname : IsWord name) (hargs : ∀ a ∈ args, IsWord a) (hlen : args.length ≤ 5)
    (hs : ∀ b ∈ s.head?, isSpace b = true) :
    parse (name ++ (joined args ++ s) ++ [CR, LF]) = some ⟨name.map toUpper,
      lastArg (argLoop (5 - args.length) ⟨.before s, args.getLastD [], args⟩)⟩ := by
  obtain ⟨hne, hword⟩ := hname
  have htrim : ∀ t : Bytes, popBack CR (popBack LF (t ++ [CR, LF])) = t := by
    intro t
    have hsplit : t ++ [CR, LF] = (t ++ [CR]) ++ [LF] := by simp
    rw [hsplit, popBack, popBack, List.getLast?_concat, if_pos rfl, List.dropLast_concat,
      List.getLast?_concat, if_pos rfl, List.dropLast_concat]
  have hread : (IStream.ofBytes (name ++ (joined args ++ s))).extract []
      = (.before (joined args ++ s), name) := by
    have hspace : ∀ b ∈ ([] : Bytes), isSpace b = true := fun b hb => absurd hb List.not_mem_nil
    exact extract_word hspace hne hword (isSpace_of_mem_head_joined hs) []
  have hloop := argLoop_words hargs hs (5 - args.length) [] []
  rw [Nat.add_sub_cancel' hlen, List.nil_append] at hloop
  rw [parse, if_neg (by simp), htrim]
  simp only [if_neg (List.append_ne_nil_of_left_ne_nil hne (joined args ++ s)), hread]
  rw [← hloop]
  rfl

/-- Behind five arguments, the rest of the line is one more. -/
theorem parse_rest (hname : IsWord name) (hargs : ∀ a ∈ args, IsWord a) (hlen : args.length = 5)
    {rest : Bytes} (hrest : LF ∉ rest) :
    parse (name ++ (joined args ++ BLANK :: rest) ++ [CR, LF]) = some ⟨name.map toUpper,
      args ++ [rest.dropWhile (· = BLANK)]⟩ := by
  have hspace : ∀ b ∈ (BLANK :: rest).head?, isSpace b = true := by
    intro b hb
    obtain rfl : BLANK = b := Option.some.inj hb
    rfl
  have hline : LF ∉ BLANK :: rest := by
    rw [List.mem_cons, not_or]
    exact ⟨by decide, hrest⟩
  have hread : (IStream.before (BLANK :: rest)).getline (args.getLastD [])
      = (⟨[], true, false⟩, BLANK :: rest) := getline_ofBytes hline _
  rw [parse_line hname hargs hlen.le hspace, hlen, Nat.sub_self, argLoop]
  simp only [lastArg, hread, if_neg (List.cons_ne_nil BLANK rest)]
  rw [List.dropWhile_cons_of_pos (by simp)]

/-! ## The round trip -/

theorem IsWord.blank_ne_head {w : Bytes} (h : IsWord w) : ∀ b ∈ w.head?, b ≠ BLANK := by
  rintro b hb rfl
  exact absurd (h.2 BLANK (List.mem_of_mem_head? hb)) (by decide)

theorem dropWhile_blank {w : Bytes} (h : IsWord w) (s : Bytes) :
    (w ++ s).dropWhile (· = BLANK) = w ++ s := by
  obtain ⟨b, w, rfl⟩ := List.exists_cons_of_ne_nil h.1
  rw [List.cons_append, List.dropWhile_cons_of_neg (by simpa using h.blank_ne_head b rfl)]

theorem lf_notMem_joined (hargs : ∀ a ∈ args, IsWord a) : LF ∉ joined args := by
  intro hmem
  obtain ⟨a, ha, hlf⟩ := List.mem_flatMap.mp hmem
  rcases List.mem_cons.mp hlf with heq | hlf
  · exact absurd heq (by decide)
  · exact absurd ((hargs a ha).2 LF hlf) (by decide)

/-- With at most five arguments, the last one is appended again. -/
theorem parse_formatLine_of_le (hname : IsWord name) (hargs : ∀ a ∈ args, IsWord a)
    (hlen : args.length ≤ 5) :
    parse (formatLine name args) = some ⟨name.map toUpper,
      if args = [] then [] else args ++ [args.getLastD []]⟩ := by
  have hline := parse_line hname hargs hlen (s := []) (by simp)
  rw [List.append_nil, ← intercalate_eq_joined, lastArg_argLoop_end] at hline
  rw [formatLine, hline]
  rcases List.eq_nil_or_concat args with rfl | ⟨init, last, rfl⟩
  · rfl
  · have hlast : IsWord last := hargs last (by simp)
    have hdrop := dropWhile_blank hlast []
    rw [List.append_nil] at hdrop
    rw [List.concat_eq_append, List.getLastD_concat, if_neg hlast.1, if_neg (by simp), hdrop]

/-- With six or more, the sixth and the others are the rest of the line. -/
theorem parse_formatLine_of_lt (hname : IsWord name) (hargs : ∀ a ∈ args, IsWord a)
    (hlen : 6 ≤ args.length) :
    parse (formatLine name args) = some ⟨name.map toUpper,
      args.take 5 ++ [[BLANK].intercalate (args.drop 5)]⟩ := by
  obtain ⟨w, more, hmore⟩ : ∃ w more, args.drop 5 = w :: more := by
    apply List.exists_cons_of_ne_nil
    rw [Ne, List.drop_eq_nil_iff]
    omega
  have hw : IsWord w := hargs w (List.mem_of_mem_drop (hmore ▸ List.mem_cons_self))
  have hmore' : ∀ a ∈ more, IsWord a := fun a ha =>
    hargs a (List.mem_of_mem_drop (hmore ▸ List.mem_cons_of_mem w ha))
  have hrest : LF ∉ w ++ joined more := by
    rw [List.mem_append, not_or]
    refine ⟨fun hmem => ?_, lf_notMem_joined hmore'⟩
    exact absurd (hw.2 LF hmem) (by decide)
  have hfive : (args.take 5).length = 5 := List.length_take_of_le (by omega)
  have hline := parse_rest hname (fun a ha => hargs a (List.mem_of_mem_take ha)) hfive hrest
  have hsplit : joined args = joined (args.take 5) ++ BLANK :: (w ++ joined more) := by
    rw [← joined_cons, ← hmore, joined, joined, joined, ← List.flatMap_append, List.take_append_drop]
  rw [formatLine, intercalate_eq_joined, hsplit, hline, dropWhile_blank hw, hmore,
    intercalate_eq_joined]

/-- A command comes back exactly when it has no argument, or six or more. With five arguments and
any rest of the line behind them, the rest comes back without its leading blanks. -/
theorem parse_formatLine_iff (hname : IsWord name) (hargs : ∀ a ∈ args, IsWord a) :
    (parse (formatLine name args) = some ⟨name.map toUpper, expectedArgs args⟩ ↔
      args = [] ∨ 6 ≤ args.length) ∧
      (args.length = 5 → ∀ rest, LF ∉ rest →
        parse ([BLANK].intercalate (name :: args) ++ BLANK :: rest ++ [CR, LF])
          = some ⟨name.map toUpper, args ++ [rest.dropWhile (· = BLANK)]⟩) := by
  constructor
  · unfold expectedArgs
    split_ifs with hlen
    · rw [parse_formatLine_of_le hname hargs hlen, Option.some_inj, Command.mk.injEq,
        and_iff_right rfl]
      by_cases hnil : args = []
      · simp [hnil]
      · rw [if_neg hnil]
        exact iff_of_false (by simp) (by simp [hnil]; omega)
    · rw [parse_formatLine_of_lt hname hargs (by omega)]
      exact iff_of_true rfl (.inr (by omega))
  · intro hlen rest hrest
    rw [intercalate_eq_joined, List.append_assoc name]
    exact parse_rest hname hargs hlen hrest

/-- A name alone. -/
theorem parse_formatLine_shards :
    parse (formatLine [0x73, 0x68] []) = some ⟨[0x53, 0x48], []⟩ :=
  (parse_formatLine_iff (by decide) (by decide)).1.mpr (.inl rfl)

/-- `get a` has two arguments for the parser. -/
theorem not_parse_formatLine_get :
    parse (formatLine [0x67, 0x65, 0x74] [[0x61]]) = some ⟨[0x47, 0x45, 0x54], [[0x61], [0x61]]⟩ ∧
      parse (formatLine [0x67, 0x65, 0x74] [[0x61]])
        ≠ some ⟨[0x67, 0x65, 0x74].map toUpper, expectedArgs [[0x61]]⟩ := by
  decide

end Parse

end TextProtocol

end LeKV
