import LeKV.Cli.LekvCli

/-!
# Lines as commands

What a line means does not depend on the network: `Command.ofLine` reads it, and `Command.answer` is what
a client prints that has one map and one routing table in front of it. `execute_eq` says that `Execute`
reads every line in this way.
-/

namespace LeKV

open Bytes BinaryProtocol Effects InputStream Text

/-- What a line asks for. An operation keeps the word it was asked for with: an unknown word is a
`GET` whose value is not shown. -/
inductive Command where
  | blank
  | exit
  | help
  | tablets
  | noKey
  | data (cmd : Bytes) (o : ClientOp)
deriving DecidableEq, Repr

/-- The opcode of an operation. -/
def ClientOp.opcode : ClientOp → UInt8
  | put _ _ => OP_PUT
  | get _ => OP_GET
  | delete _ => OP_DELETE

/-- The value of a `PUT`. -/
def ClientOp.value : ClientOp → Bytes
  | put _ value => value
  | get _ => []
  | delete _ => []

namespace Command

open Cli

/-- The operation for a word and a key. -/
def opOf (cmd key value : Bytes) : ClientOp :=
  if cmd = text "put" then .put key value
  else if cmd = text "delete" ∨ cmd = text "del" then .delete key
  else .get key

/-- What a line asks for. -/
def ofLine (line : Bytes) : Command :=
  let first := (IStream.ofBytes line).extract []
  let cmd := first.2.map toLower
  let second := first.1.extract []
  if first.2 = [] then blank
  else if cmd = text "exit" ∨ cmd = text "quit" then exit
  else if cmd = text "help" then help
  else if cmd = text "tablets" then tablets
  else if second.2 = [] then noKey
  else data cmd (opOf cmd second.2 (readValue second.1))

/-- What is done for a command. -/
def prog : Command → Cli Executed
  | blank => return .returned true
  | exit => do
    print (.out (text "Bye!\n"))
    return .exited
  | help => do
    print (.out (text "Commands:\n  put <key> <value>\n  get <key>\n  delete <key>\n  tablets\n  exit / quit\n"))
    return .returned true
  | tablets => do
    let (ok, table) ← Cli.fetchRouteTable
    if ¬ok then
      print (.err (text "Failed to fetch route table from proxy\n"))
      return .returned false
    printTablets table
    return .returned true
  | noKey => do
    print (.err (text "Error: key is required\n"))
    return .returned false
  | data cmd o => do
    let (ok, table) ← Cli.fetchRouteTable
    if ¬ok then
      print (.err (text "Failed to fetch route table from proxy\n"))
      return .returned false
    match findRoute table o.key with
    | none =>
      print (.err (text "Failed to find route for key: " ++ o.key ++ text "\n"))
      return .returned false
    | some addr =>
      let (ok, status, result) ← Cli.doDataNodeRequest addr o.opcode o.key o.value
      if ¬ok then
        print (.err (text "Error: " ++ result ++ text "\n"))
        return .returned false
      print (answerLine cmd status result)
      return .returned true

/-- `Execute` does for a line what the command asks for. -/
theorem execute_eq (line : Bytes) : execute line = (ofLine line).prog := by
  unfold execute ofLine
  dsimp only
  generalize (IStream.ofBytes line).extract [] = first
  generalize first.1.extract [] = second
  generalize hcmd : first.2.map toLower = cmd
  by_cases hblank : first.2 = []
  · rw [if_pos hblank, if_pos hblank]
    rfl
  rw [if_neg hblank, if_neg hblank]
  by_cases hexit : cmd = text "exit" ∨ cmd = text "quit"
  · rw [if_pos hexit, if_pos hexit]
    rfl
  rw [if_neg hexit, if_neg hexit]
  by_cases hhelp : cmd = text "help"
  · rw [if_pos hhelp, if_pos hhelp]
    rfl
  rw [if_neg hhelp, if_neg hhelp]
  by_cases htablets : cmd = text "tablets"
  · rw [if_pos htablets, if_pos htablets]
    rfl
  rw [if_neg htablets, if_neg htablets]
  by_cases hkey : second.2 = []
  · rw [if_pos hkey, if_pos hkey]
    rfl
  rw [if_neg hkey, if_neg hkey]
  unfold opOf
  by_cases hput : cmd = text "put"
  · have hget : ¬cmd = text "get" := by
      rw [hput]
      decide +kernel
    rw [if_pos hput, if_pos hput, if_neg hget, if_pos hput]
    rfl
  rw [if_neg hput, if_neg hput, if_neg hput]
  by_cases hdelete : cmd = text "delete" ∨ cmd = text "del"
  · have hget : ¬cmd = text "get" := by
      rcases hdelete with h | h
      · rw [h]
        decide +kernel
      · rw [h]
        decide +kernel
    rw [if_pos hdelete, if_pos hdelete, if_neg hget]
    rfl
  rw [if_neg hdelete, if_neg hdelete, ite_self]
  rfl

/-! ## What one map answers -/

/-- What is shown for an operation on the map `σ`. -/
def shown (cmd : Bytes) (σ : Bytes → Option Bytes) : ClientOp → Bytes
  | .put _ _ => text "OK\n"
  | .delete _ => text "OK\n"
  | .get key =>
    match σ key with
    | none => text "Key not found\n"
    | some value =>
      if cmd = text "get" then (if value = [] then text "(empty)" else value) ++ text "\n"
      else text "OK\n"

/-- What is printed for a command by a client with the map `σ` and the routing table `table`. -/
def answer (σ : Bytes → Option Bytes) (table : List CachedTablet) : Command → List Printed
  | blank => []
  | exit => [.out (text "Bye!\n")]
  | help => [.out (text
      "Commands:\n  put <key> <value>\n  get <key>\n  delete <key>\n  tablets\n  exit / quit\n")]
  | tablets => table.map fun t => .out (tabletLine t)
  | noKey => [.err (text "Error: key is required\n")]
  | data cmd o => [.out (shown cmd σ o)]

/-- How a command ends where nothing fails. -/
def ending : Command → Executed
  | exit => .exited
  | noKey => .returned false
  | _ => .returned true

/-- The operation of a command. -/
def op? : Command → Option ClientOp
  | data _ o => some o
  | _ => none

/-! ## Lines with an operation -/

@[simp] theorem key_opOf (cmd key value : Bytes) : (opOf cmd key value).key = key := by
  unfold opOf
  split_ifs <;> rfl

/-- A line asks for no operation, or for one on its second word. -/
theorem ofLine_cases (line : Bytes) : (ofLine line).op? = none ∨ ∃ (cmd : Bytes) (is : IStream),
    (is.extract []).2 ≠ [] ∧
      ofLine line = data cmd (opOf cmd (is.extract []).2 (readValue (is.extract []).1)) := by
  unfold ofLine
  dsimp only
  split_ifs with hblank hexit hhelp htablets hkey
  · exact .inl rfl
  · exact .inl rfl
  · exact .inl rfl
  · exact .inl rfl
  · exact .inl rfl
  · exact .inr ⟨_, _, hkey, rfl⟩

/-- The word of an operation is no other operation's. -/
def Worded : Command → Prop
  | data cmd o => cmd = text "get" → o = .get o.key
  | _ => True

theorem worded_ofLine (line : Bytes) : (ofLine line).Worded := by
  rcases ofLine_cases line with hnone | ⟨cmd, is, -, hline⟩
  · cases hcmd : ofLine line with
    | data cmd o =>
      rw [hcmd] at hnone
      exact absurd hnone (Option.some_ne_none o)
    | _ => trivial
  · rw [hline]
    rintro rfl
    have hput : ¬text "get" = text "put" := by decide +kernel
    have hdelete : ¬(text "get" = text "delete" ∨ text "get" = text "del") := by decide +kernel
    rw [opOf, if_neg hput, if_neg hdelete]
    rfl

/-! ## What is typed -/

section Typed

variable {w key space rest value : Bytes}

/-- Lower-casing keeps words words. -/
theorem isSpace_toLower (b : UInt8) : isSpace (toLower b) = isSpace b := by
  have hall : ∀ n < 256, isSpace (toLower (UInt8.ofNat n)) = isSpace (UInt8.ofNat n) := by
    decide +kernel
  simpa using hall b.toNat b.toNat_lt

/-- A line with two words, the first of them none of those that stand alone. -/
theorem ofLine_words (hw : w ≠ [] ∧ ∀ b ∈ w, isSpace b = false)
    (hspace : space ≠ [] ∧ ∀ b ∈ space, isSpace b = true)
    (hkey : key ≠ [] ∧ ∀ b ∈ key, isSpace b = false) (hrest : ∀ b ∈ rest.head?, isSpace b = true)
    (halone : w.map toLower ∉ [text "exit", text "quit", text "help", text "tablets"]) :
    ofLine (w ++ (space ++ (key ++ rest)))
      = data (w.map toLower) (opOf (w.map toLower) key (readValue (IStream.before rest))) := by
  have hfirst : (IStream.ofBytes (w ++ (space ++ (key ++ rest)))).extract []
      = (IStream.before (space ++ (key ++ rest)), w) := by
    refine @extract_word w (space ++ (key ++ rest)) [] (by simp) hw.1 hw.2 (fun b hb => ?_) []
    obtain ⟨c, l, rfl⟩ := List.exists_cons_of_ne_nil hspace.1
    obtain rfl : c = b := by simpa using hb
    exact hspace.2 c List.mem_cons_self
  have hbefore : IStream.before (space ++ (key ++ rest)) = .ofBytes (space ++ (key ++ rest)) := by
    obtain ⟨c, l, rfl⟩ := List.exists_cons_of_ne_nil hspace.1
    rfl
  have hsecond : (IStream.ofBytes (space ++ (key ++ rest))).extract [] = (IStream.before rest, key) :=
    extract_word hspace.2 hkey.1 hkey.2 hrest []
  simp only [List.mem_cons, List.not_mem_nil, or_false, not_or] at halone
  unfold ofLine
  simp only [hfirst, hbefore, hsecond]
  rw [if_neg hw.1, if_neg (not_or.mpr ⟨halone.1, halone.2.1⟩), if_neg halone.2.2.1,
    if_neg halone.2.2.2, if_neg hkey.1]

/-- The rest of the line behind a key, read as a value: without the blanks in front, unless there is
nothing else. -/
theorem readValue_before (hvalue : 0x0A ∉ value) :
    readValue (IStream.before (SPACE :: value))
      = if value.dropWhile (· = SPACE) = [] then SPACE :: value else value.dropWhile (· = SPACE) := by
  have hline : 0x0A ∉ SPACE :: value := by
    rintro hmem
    rcases List.mem_cons.mp hmem with h | h
    · exact absurd h (by decide)
    · exact hvalue h
  have hread : ((IStream.before (SPACE :: value)).getline []).2 = SPACE :: value :=
    congrArg Prod.snd (getline_ofBytes hline [])
  have hdrop : (SPACE :: value).dropWhile (· = SPACE) = value.dropWhile (· = SPACE) :=
    List.dropWhile_cons_of_pos (by simp)
  rw [readValue, hread, hdrop]

/-- A line that types a value behind `put` and a key is the `put` of this value exactly where it is not
empty and does not begin with a blank: the blanks in front are dropped, and of nothing but blanks all are
kept. -/
theorem ofLine_put_iff (hw : w.map toLower = text "put") (hkey : key ≠ [] ∧ ∀ b ∈ key, isSpace b = false)
    (hvalue : 0x0A ∉ value) :
    ofLine (w ++ SPACE :: (key ++ SPACE :: value)) = data (text "put") (.put key value) ↔
      value ≠ [] ∧ value.head? ≠ some SPACE := by
  have hword : w ≠ [] ∧ ∀ b ∈ w, isSpace b = false := by
    constructor
    · rintro rfl
      exact absurd hw (by decide +kernel)
    · intro b hb
      have hall : ∀ b ∈ text "put", isSpace b = false := by decide +kernel
      rw [← isSpace_toLower]
      exact hall _ (hw ▸ List.mem_map_of_mem hb)
  have halone : w.map toLower ∉ [text "exit", text "quit", text "help", text "tablets"] := by
    rw [hw]
    decide +kernel
  have hline : ofLine (w ++ SPACE :: (key ++ SPACE :: value))
      = data (text "put") (.put key (readValue (IStream.before (SPACE :: value)))) := by
    have h := @ofLine_words w key [SPACE] (SPACE :: value) hword (by decide +kernel) hkey
      (fun b hb => by obtain rfl := Option.some.inj hb; rfl) halone
    rwa [hw, opOf, if_pos rfl] at h
  rw [hline, readValue_before hvalue]
  rcases value with _ | ⟨b, value⟩
  · simp
  by_cases hb : b = SPACE
  · -- the blank is dropped, or another one added
    subst hb
    have hlen : ((SPACE :: value).dropWhile (· = SPACE)).length ≤ value.length := by
      rw [List.dropWhile_cons_of_pos (by simp)]
      exact List.length_dropWhile_le _ value
    refine iff_of_false (fun heq => ?_) (by simp)
    have hvalue' := congrArg List.length (ClientOp.put.inj (Command.data.inj heq).2).2
    split_ifs at hvalue'
    · simp at hvalue'
    · rw [List.length_cons] at hvalue'
      omega
  · have hdrop : (b :: value).dropWhile (· = SPACE) = b :: value :=
      List.dropWhile_cons_of_neg (by simpa using hb)
    rw [hdrop, if_neg (List.cons_ne_nil b value)]
    simp [hb]

/-- Upper case, and blanks inside the value. -/
theorem ofLine_put_upper :
    ofLine (text "PUT" ++ SPACE :: ([0x61] ++ SPACE :: text "x  y"))
      = data (text "put") (.put [0x61] (text "x  y")) :=
  (ofLine_put_iff (by decide +kernel) (by decide +kernel) (by decide +kernel)).mpr (by decide +kernel)

end Typed

end Command

end LeKV
