import Quaso.Lib.Words
import Quaso.Kv.Command

/-!
# Lines and operations

`parse_command` takes a line apart; here the line of an operation is put together,
its keyword and its arguments with a space between them, and compared.

* `Operation.line` — the line of an operation, its keyword as the user spells it.
* `parseCommand_eq_some_iff` — the operation stands at the beginning of the words;
  nothing is said of the words after it.
* `parseCommand_line` — the line of an operation is read as this operation.
* `parsesFully_iff` — parsing does not panic and loses nothing exactly where a command
  has as many words as its keyword takes.
-/

namespace Quaso

variable {command before after : Text} {op : Operation}

/-! ## The line of an operation -/

namespace Operation

/-- The word that an operation begins with. -/
def keyword : Operation → Text
  | .set .. => setWord
  | .get _ => getWord
  | .delete _ => deleteWord
  | .invalid => []

/-- The words that follow it. -/
def arguments : Operation → List Text
  | .set key value => [key, value]
  | .get key | .delete key => [key]
  | .invalid => []

/-- The operation in words, with a space between two of them. -/
def line (keyword : Text) (op : Operation) : Text := [' '].intercalate (keyword :: op.arguments)

theorem arguments_ne_nil (hop : op ≠ .invalid) : op.arguments ≠ [] := by
  cases op with
  | invalid => exact absurd rfl hop
  | _ => exact List.cons_ne_nil _ _

/-- The line ends with an argument, after a space. -/
theorem exists_line_eq (keyword : Text) (hop : op ≠ .invalid) :
    ∃ start, ∃ last ∈ op.arguments, op.line keyword = start ++ ' ' :: last := by
  cases op with
  | set key value =>
    exact ⟨keyword ++ ' ' :: key, value, by simp [arguments], by simp [line, arguments]⟩
  | get key => exact ⟨keyword, key, by simp [arguments], by simp [line, arguments]⟩
  | delete key => exact ⟨keyword, key, by simp [arguments], by simp [line, arguments]⟩
  | invalid => exact absurd rfl hop

/-- The line begins with what stands for the keyword. -/
theorem head?_line {keyword : Text} (hkeyword : keyword ≠ []) :
    (op.line keyword).head? = keyword.head? := by
  obtain ⟨first, rest, rfl⟩ := List.exists_cons_of_ne_nil hkeyword
  cases op <;> simp [line, arguments]

end Operation

/-! ## What the parser finds -/

/-- An operation has one of the three keywords. -/
theorem Operation.keyword_cases (hop : op ≠ .invalid) :
    op.keyword = setWord ∨ op.keyword = getWord ∨ op.keyword = deleteWord := by
  cases op with
  | set key value => exact Or.inl rfl
  | get key => exact Or.inr (Or.inl rfl)
  | delete key => exact Or.inr (Or.inr rfl)
  | invalid => exact absurd rfl hop

/-- The parser on words that begin with the operation. -/
theorem Operation.parseCommand_of_validate {keyword : Text} {extra : List Text}
    (hop : op ≠ .invalid)
    (h : validate command = some (op.keyword, keyword :: op.arguments ++ extra)) :
    parseCommand command = some op := by
  rw [parseCommand, h]
  cases op with
  | set key value => rfl
  | get key => rfl
  | delete key => rfl
  | invalid => exact absurd rfl hop

/-- What the parser has found when it returns an operation. -/
theorem Operation.validate_of_parseCommand (hop : op ≠ .invalid)
    (h : parseCommand command = some op) :
    ∃ first extra, validate command = some (op.keyword, first :: op.arguments ++ extra) := by
  unfold parseCommand at h
  cases hvalid : validate command with
  | none =>
    rw [hvalid] at h
    exact absurd (Option.some.inj h).symm hop
  | some found =>
    obtain ⟨opr, words⟩ := found
    obtain ⟨first, rest, rfl, hrest, -, hopr⟩ := validate_eq_some_iff.1 hvalid
    obtain ⟨second, rest, rfl⟩ := List.exists_cons_of_ne_nil hrest
    rw [hvalid] at h
    refine ⟨first, ?_⟩
    rcases (parseOpr_eq_some_iff.1 hopr).2 with rfl | rfl | rfl
    · cases rest with
      | nil => cases h
      | cons third rest =>
        obtain rfl : .set second third = op := Option.some.inj h
        exact ⟨rest, rfl⟩
    · obtain rfl : .get second = op := Option.some.inj h
      exact ⟨rest, rfl⟩
    · obtain rfl : .delete second = op := Option.some.inj h
      exact ⟨rest, rfl⟩

/-- The words that `validate` gives when they begin with the operation. -/
theorem Operation.validate_of_splitOn {keyword : Text} {extra : List Text} (hop : op ≠ .invalid)
    (hsplit : (trim command).splitOn ' ' = keyword :: op.arguments ++ extra)
    (hkeyword : toLowercase (trim keyword) = op.keyword) :
    validate command = some (op.keyword, keyword :: op.arguments ++ extra) := by
  have hopr : parseOpr keyword = some op.keyword :=
    parseOpr_eq_some_iff.2 ⟨hkeyword, keyword_cases hop⟩
  have hne : op.arguments ++ extra ≠ [] := by simp [arguments_ne_nil hop]
  exact validate_eq_some_iff.2 ⟨keyword, op.arguments ++ extra, rfl, hne, hsplit, hopr⟩

/-- **The words begin with the operation**: the keyword, spelt in any case and with any
white space around it, and the arguments as they are. -/
theorem Operation.parseCommand_eq_some_iff (hop : op ≠ .invalid) :
    parseCommand command = some op ↔
      ∃ keyword extra, (trim command).splitOn ' ' = keyword :: op.arguments ++ extra ∧
        toLowercase (trim keyword) = op.keyword := by
  constructor
  · intro h
    obtain ⟨first, extra, hvalid⟩ := validate_of_parseCommand hop h
    obtain ⟨keyword, rest, hwords, -, hsplit, hopr⟩ := validate_eq_some_iff.1 hvalid
    obtain ⟨rfl, -⟩ := List.cons_eq_cons.1 hwords
    exact ⟨first, extra, hsplit, (parseOpr_eq_some_iff.1 hopr).1⟩
  · rintro ⟨keyword, extra, hsplit, hkeyword⟩
    exact parseCommand_of_validate hop (validate_of_splitOn hop hsplit hkeyword)

/-! ## Words without white space -/

/-- A word: some characters, none of them white space. -/
def IsWord (text : Text) : Prop := text ≠ [] ∧ ∀ c ∈ text, isWhitespace c = false

instance instDecidableIsWord (text : Text) : Decidable (IsWord text) :=
  decidable_of_iff (text ≠ [] ∧ text.all (fun c => !isWhitespace c) = true) (by simp [IsWord])

/-- White space has no case. -/
theorem toLower_of_isWhitespace {c : Char} (hc : isWhitespace c = true) : c.toLower = c := by
  unfold isWhitespace at hc
  unfold Char.toLower
  split
  · -- The capital letters lie between two ranges of white space.
    rename_i h
    have hA : 'A'.toNat = 65 := rfl
    have hZ : 'Z'.toNat = 90 := rfl
    simp only [ge_iff_le, UInt32.le_iff_toNat_le, Char.toNat_val, hA, hZ] at h
    simp only [Bool.or_eq_true, Bool.and_eq_true, decide_eq_true_eq, beq_iff_eq] at hc
    omega
  · rfl

/-- A spelling of a keyword is a word. -/
theorem isWord_of_keyword {keyword : Text} (hop : op ≠ .invalid)
    (h : toLowercase keyword = op.keyword) : IsWord keyword := by
  have hword : IsWord op.keyword := by
    rcases Operation.keyword_cases hop with h | h | h <;> rw [h] <;> decide
  constructor
  · rintro rfl
    exact hword.1 h.symm
  · intro c hc
    by_contra hspace
    rw [Bool.not_eq_false] at hspace
    have hlower : c.toLower ∈ op.keyword := h ▸ List.mem_map_of_mem hc
    rw [toLower_of_isWhitespace hspace] at hlower
    rw [hword.2 c hlower] at hspace
    cases hspace

/-- `trim` takes white space off a text that neither begins nor ends with it, and nothing
else. -/
theorem trim_append {text : Text} (hbefore : ∀ c ∈ before, isWhitespace c = true)
    (hafter : ∀ c ∈ after, isWhitespace c = true)
    (hhead : ∀ c ∈ text.head?, isWhitespace c = false)
    (hlast : ∀ c ∈ text.getLast?, isWhitespace c = false) :
    trim (before ++ text ++ after) = text :=
  strip_append hbefore hafter hhead hlast

theorem IsWord.trim {word : Text} (h : IsWord word) : Quaso.trim word = word := by
  have htrim : Quaso.trim ([] ++ word ++ []) = word :=
    trim_append (by simp) (by simp) (fun c hc => h.2 c (List.mem_of_mem_head? hc))
      fun c hc => h.2 c (List.mem_of_getLast? hc)
  simpa using htrim

theorem IsWord.space_not_mem {word : Text} (h : IsWord word) : ' ' ∉ word := fun hc =>
  absurd (h.2 ' ' hc) (by decide)

/-! ## From an operation to its line and back -/

/-- A line is cut into the pieces of what stands for its keyword, and the arguments. -/
theorem Operation.splitOn_line {keyword : Text} (hop : op ≠ .invalid)
    (hargs : ∀ x ∈ op.arguments, ' ' ∉ x) :
    (op.line keyword).splitOn ' ' = keyword.splitOn ' ' ++ op.arguments := by
  have hne := arguments_ne_nil hop
  obtain ⟨second, others, hcons⟩ := List.exists_cons_of_ne_nil hne
  rw [line, hcons, List.intercalate_cons_cons, ← hcons, List.append_assoc, List.singleton_append,
    List.splitOn_append_cons_self, List.splitOn_intercalate ' ' hargs hne]

/-- Neither end of a line of words is white space. -/
theorem Operation.trim_line {keyword : Text} (hop : op ≠ .invalid) (hkeyword : IsWord keyword)
    (hargs : ∀ x ∈ op.arguments, IsWord x) (hbefore : ∀ c ∈ before, isWhitespace c = true)
    (hafter : ∀ c ∈ after, isWhitespace c = true) :
    trim (before ++ op.line keyword ++ after) = op.line keyword := by
  apply trim_append hbefore hafter
  · intro c hc
    rw [head?_line hkeyword.1] at hc
    exact hkeyword.2 c (List.mem_of_mem_head? hc)
  · intro c hc
    obtain ⟨start, last, hlast, hline⟩ := exists_line_eq keyword hop
    obtain ⟨first, rest, rfl⟩ := List.exists_cons_of_ne_nil (hargs last hlast).1
    refine (hargs _ hlast).2 c (List.mem_of_getLast? ?_)
    rw [hline] at hc
    simpa [List.getLast?_append] using hc

/-- **A line is read as the operation it is written for**: in any spelling of the keyword and
with any white space around it. -/
theorem Operation.parseCommand_line {keyword : Text} (hop : op ≠ .invalid)
    (hargs : ∀ x ∈ op.arguments, IsWord x) (hkeyword : toLowercase keyword = op.keyword)
    (hbefore : ∀ c ∈ before, isWhitespace c = true)
    (hafter : ∀ c ∈ after, isWhitespace c = true) :
    parseCommand (before ++ op.line keyword ++ after) = some op := by
  have hword := isWord_of_keyword hop hkeyword
  refine (parseCommand_eq_some_iff hop).2 ⟨keyword, [], ?_, ?_⟩
  · rw [trim_line hop hword hargs hbefore hafter,
      splitOn_line hop fun x hx => (hargs x hx).space_not_mem,
      List.splitOn_eq_singleton hword.space_not_mem, List.append_nil, List.singleton_append]
  · rw [hword.trim, hkeyword]

/-- `SeT Key vAlue` with a tab before it and a newline after it. -/
theorem Operation.parseCommand_line_mixed :
    parseCommand (['\t'] ++
        (Operation.set ['K', 'e', 'y'] ['v', 'A', 'l', 'u', 'e']).line ['S', 'e', 'T'] ++ ['\n'])
      = some (.set ['K', 'e', 'y'] ['v', 'A', 'l', 'u', 'e']) :=
  parseCommand_line (by decide)
    (List.forall_mem_cons.2 ⟨by decide, List.forall_mem_singleton.2 (by decide)⟩) (by decide)
    (List.forall_mem_singleton.2 (by decide)) (List.forall_mem_singleton.2 (by decide))

/-! ## What parsing loses -/

/-- What parsing is to do with a command. -/
structure ParsesFully (command : Text) : Prop where
  /-- It does not panic. -/
  total : ∃ op, Operation.parseCommand command = some op
  /-- The invalid commands are those that the CLI does not send. -/
  invalid : Operation.parseCommand command = some .invalid ↔ validate command = none
  /-- The command is the line of the operation, in some spelling of the keyword and with
  white space around it. -/
  lossless : ∀ op, op ≠ .invalid → Operation.parseCommand command = some op →
    ∃ keyword, toLowercase (trim keyword) = op.keyword ∧ op.line keyword = trim command

/-- How many words a command with the keyword has. -/
def wordCount (opr : Text) : Nat := if opr = setWord then 3 else 2

/-- A command that begins with a keyword has as many words as it takes. -/
def WordsFit (command : Text) : Prop :=
  ∀ opr words, validate command = some (opr, words) → words.length = wordCount opr

theorem Operation.wordCount_keyword (hop : op ≠ .invalid) :
    wordCount op.keyword = op.arguments.length + 1 := by
  cases op with
  | invalid => exact absurd rfl hop
  | _ => rfl

/-- `parse_command` says invalid exactly where `validate` finds nothing. -/
theorem Operation.parseCommand_eq_invalid_iff :
    parseCommand command = some .invalid ↔ validate command = none := by
  constructor
  · intro h
    cases hvalid : validate command with
    | none => rfl
    | some found =>
      obtain ⟨opr, words⟩ := found
      obtain ⟨first, rest, rfl, hrest, -, hopr⟩ := validate_eq_some_iff.1 hvalid
      obtain ⟨second, rest, rfl⟩ := List.exists_cons_of_ne_nil hrest
      rw [parseCommand, hvalid] at h
      rcases (parseOpr_eq_some_iff.1 hopr).2 with rfl | rfl | rfl
      · cases rest <;> cases h
      · cases h
      · cases h
  · intro h
    rw [parseCommand, h]

/-- What stands for the keyword in a trimmed line is the keyword and white space after it. -/
theorem Operation.exists_trim_append {keyword : Text} (hop : op ≠ .invalid)
    (hkeyword : toLowercase (trim keyword) = op.keyword) (hline : op.line keyword = trim command) :
    ∃ after, keyword = trim keyword ++ after ∧ ∀ c ∈ after, isWhitespace c = true := by
  have hne : keyword ≠ [] := by
    rintro rfl
    exact (isWord_of_keyword hop hkeyword).1 rfl
  refine exists_strip_append fun c hc => ?_
  rw [← head?_line hne, hline] at hc
  exact head?_strip hc

/-- A trimmed line has an argument that is not all white space. -/
theorem Operation.exists_argument {keyword : Text} (hop : op ≠ .invalid)
    (hline : op.line keyword = trim command) :
    ∃ x ∈ op.arguments, ∃ c ∈ x, isWhitespace c = false := by
  obtain ⟨start, last, hlast, hend⟩ := exists_line_eq keyword hop
  have hsolid : ∀ c ∈ (trim command).getLast?, isWhitespace c = false := fun c hc =>
    getLast?_strip hc
  rw [← hline, hend] at hsolid
  rcases List.eq_nil_or_concat' last with rfl | ⟨init, c, rfl⟩
  · exact absurd (hsolid ' ' (by simp)) (by decide)
  · exact ⟨_, hlast, c, by simp, hsolid c (by simp [List.getLast?_cons])⟩

/-- **If the whole command is the line of the operation, no word is left over.** -/
theorem Operation.extra_eq_nil {keyword first : Text} {extra : List Text} (hop : op ≠ .invalid)
    (hkeyword : toLowercase (trim keyword) = op.keyword) (hline : op.line keyword = trim command)
    (hsplit : (trim command).splitOn ' ' = first :: op.arguments ++ extra) : extra = [] := by
  by_contra hextra
  obtain ⟨after, hafter, hblank⟩ := exists_trim_append hop hkeyword hline
  have hargs : ∀ x ∈ op.arguments, ' ' ∉ x := by
    intro x hx hspace
    have hmem : x ∈ (trim command).splitOn ' ' := by
      rw [hsplit]
      simp [hx]
    exact (of_mem_splitOn hmem hspace).2 rfl
  obtain ⟨piece, pieces, hpieces⟩ :=
    List.exists_cons_of_ne_nil (List.splitOn_ne_nil ' ' keyword)
  have hrepeat : pieces ++ op.arguments = op.arguments ++ extra := by
    rw [← hline, splitOn_line hop hargs, hpieces, List.cons_append, List.cons_append] at hsplit
    exact (List.cons_eq_cons.1 hsplit).2
  have hne : pieces ≠ [] := by
    rintro rfl
    exact hextra (List.self_eq_append_right.1 hrepeat)
  -- The pieces after the keyword are white space, and the arguments repeat them.
  have hall : ∀ x ∈ op.arguments, ∀ c ∈ x, isWhitespace c = true := by
    refine forall_of_isPrefix_append hne ?_ (hrepeat ▸ List.prefix_append _ _)
    intro x hx c hc
    refine hblank c (mem_of_mem_tail_splitOn (isWord_of_keyword hop hkeyword).space_not_mem ?_ hc)
    rw [← hafter, hpieces]
    exact hx
  obtain ⟨x, hx, c, hc, hsolid⟩ := exists_argument hop hline
  rw [hall x hx c hc] at hsolid
  cases hsolid

/-- Where the words fit, a `set` has its value. -/
theorem WordsFit.exists_parseCommand (hfit : WordsFit command) :
    ∃ op, Operation.parseCommand command = some op := by
  refine Option.ne_none_iff_exists'.1 fun hnone => ?_
  have hlacks := Operation.parseCommand_eq_none_iff.1 hnone
  unfold lacksValue at hlacks
  cases hvalid : validate command with
  | none =>
    rw [hvalid] at hlacks
    cases hlacks
  | some found =>
    obtain ⟨opr, words⟩ := found
    have hlen := hfit opr words hvalid
    rw [hvalid] at hlacks
    obtain ⟨rfl, htwo⟩ : opr = setWord ∧ words.length = 2 := by simpa using hlacks
    rw [htwo] at hlen
    cases hlen

/-- **Parsing is total and loses nothing exactly where the words fit.** -/
theorem parsesFully_iff (command : Text) : ParsesFully command ↔ WordsFit command := by
  constructor
  · rintro ⟨⟨op, hop⟩, hinvalid, hlossless⟩ opr words hvalid
    have hne : op ≠ .invalid := by
      rintro rfl
      rw [hinvalid.1 hop] at hvalid
      cases hvalid
    obtain ⟨first, extra, hsplit, hfirst⟩ := (Operation.parseCommand_eq_some_iff hne).1 hop
    obtain ⟨keyword, hkeyword, hline⟩ := hlossless op hne hop
    rw [Operation.validate_of_splitOn hne hsplit hfirst,
      Operation.extra_eq_nil hne hkeyword hline hsplit] at hvalid
    obtain ⟨rfl, rfl⟩ := Prod.mk.inj (Option.some.inj hvalid)
    rw [List.append_nil, List.length_cons, Operation.wordCount_keyword hne]
  · intro hfit
    refine ⟨hfit.exists_parseCommand, Operation.parseCommand_eq_invalid_iff, ?_⟩
    intro op hne hop
    obtain ⟨keyword, extra, hsplit, hkeyword⟩ := (Operation.parseCommand_eq_some_iff hne).1 hop
    have hlen := hfit _ _ (Operation.validate_of_splitOn hne hsplit hkeyword)
    have hextra : extra = [] := by
      rw [Operation.wordCount_keyword hne, List.length_append, List.length_cons] at hlen
      exact List.eq_nil_of_length_eq_zero (by omega)
    have hjoin : [' '].intercalate ((trim command).splitOn ' ') = trim command :=
      List.intercalate_splitOn ' '
    rw [hsplit, hextra, List.append_nil] at hjoin
    exact ⟨keyword, hkeyword, hjoin⟩

/-- `set k` makes the parser panic, and `get a b` is read as `get a`. -/
theorem not_parsesFully :
    ¬ ParsesFully ['s', 'e', 't', ' ', 'k'] ∧
      ¬ ParsesFully ['g', 'e', 't', ' ', 'a', ' ', 'b'] := by
  constructor
  · rintro ⟨⟨op, hop⟩, -, -⟩
    have hnone : Operation.parseCommand ['s', 'e', 't', ' ', 'k'] = none := by decide
    rw [hnone] at hop
    cases hop
  · intro h
    have hget : Operation.parseCommand ['g', 'e', 't', ' ', 'a', ' ', 'b'] = some (.get ['a']) := by
      decide
    obtain ⟨keyword, -, hline⟩ := h.lossless (.get ['a']) (by decide) hget
    have hlast := congrArg List.getLast? hline
    have htrim : (trim ['g', 'e', 't', ' ', 'a', ' ', 'b']).getLast? = some 'b' := by decide
    rw [htrim] at hlast
    simp [Operation.line, Operation.arguments] at hlast

end Quaso
