import Mathlib.Data.List.DropRight
import Quaso.Raft.Wire

/-!
# Commands of the key-value store

A command is a line of text.  `kv/src/storage/util.rs` cuts it into words and
`Operation::parse_command` of `kv/src/storage/kv.rs` reads an operation off the
words, indexing them without a check.

* `validate` — the words of a command that starts with a known keyword.
* `Operation.parseCommand` — the operation, `none` when an index is out of range,
  which panics; `parseCommand_eq_none_iff` says when that is.
* `encode`, `fromUtf8` — text as bytes on a connection.
* `okReply` and the others — what `handle_client` writes back.

A `String` is the list of its characters.
-/

namespace Quaso

/-- `String`. -/
abbrev Text := List Char

/-! ## Words -/

/-- `char::is_whitespace`: the Unicode property `White_Space`. -/
def isWhitespace (c : Char) : Bool :=
  let n := c.toNat
  (decide (0x9 ≤ n) && decide (n ≤ 0xD)) || n == 0x20 || n == 0x85 || n == 0xA0 || n == 0x1680 ||
    (decide (0x2000 ≤ n) && decide (n ≤ 0x200A)) || n == 0x2028 || n == 0x2029 || n == 0x202F ||
    n == 0x205F || n == 0x3000

/-- `str::trim`. -/
def trim (text : Text) : Text := (text.dropWhile isWhitespace).rdropWhile isWhitespace

/-- `str::to_lowercase`, on the ASCII letters.  No other character has the letters of a
keyword as its lower case, so the comparison with the keywords comes out the same. -/
def toLowercase (text : Text) : Text := text.map Char.toLower

def setWord : Text := ['s', 'e', 't']
def getWord : Text := ['g', 'e', 't']
def deleteWord : Text := ['d', 'e', 'l', 'e', 't', 'e']

/-- `parse_opr`. -/
def parseOpr (opr : Text) : Option Text :=
  let opr := toLowercase (trim opr)
  if opr = setWord ∨ opr = getWord ∨ opr = deleteWord then some opr else none

/-- `validate`.  `split` gives at least one word, so there is a first one. -/
def validate (command : Text) : Option (Text × List Text) :=
  let command := (trim command).splitOn ' '
  if command.length = 1 then none
  else
    match parseOpr (command.headD []) with
    | none => none
    | some opr => some (opr, command)

/-! ## Operations -/

/-- `Operation`. -/
inductive Operation where
  | set (key value : Text)
  | get (key : Text)
  | delete (key : Text)
  | invalid
  deriving DecidableEq, Repr

namespace Operation

/-- The operations that go through the log. -/
def isWrite : Operation → Bool
  | .set .. | .delete _ => true
  | .get _ | .invalid => false

def isGet : Operation → Bool
  | .get _ => true
  | _ => false

/-- `Operation::parse_command`; `none` when an index into the words panics. -/
def parseCommand (command : Text) : Option Operation :=
  match validate command with
  | some (opr, words) =>
    if opr = getWord then words[1]?.map .get
    else if opr = setWord then
      match words[1]?, words[2]? with
      | some key, some value => some (.set key value)
      | _, _ => none
    else if opr = deleteWord then words[1]?.map .delete
    else some .invalid
  | none => some .invalid

end Operation

/-- A `set` of two words, without a value. -/
def lacksValue (command : Text) : Bool :=
  match validate command with
  | some (opr, words) => decide (opr = setWord) && decide (words.length = 2)
  | none => false

theorem parseOpr_eq_some_iff {word opr : Text} :
    parseOpr word = some opr ↔
      toLowercase (trim word) = opr ∧ (opr = setWord ∨ opr = getWord ∨ opr = deleteWord) := by
  unfold parseOpr
  simp only
  split
  · rename_i hword
    constructor
    · intro h
      obtain rfl := Option.some.inj h
      exact ⟨rfl, hword⟩
    · rintro ⟨rfl, -⟩
      rfl
  · rename_i hword
    constructor
    · intro h
      cases h
    · rintro ⟨rfl, h⟩
      exact absurd h hword

/-- `validate` finds a keyword in the first word, and another word after it. -/
theorem validate_eq_some_iff {command opr : Text} {words : List Text} :
    validate command = some (opr, words) ↔
      ∃ first rest, words = first :: rest ∧ rest ≠ [] ∧ (trim command).splitOn ' ' = words ∧
        parseOpr first = some opr := by
  unfold validate
  simp only
  obtain ⟨first, rest, hsplit⟩ :=
    List.exists_cons_of_ne_nil (List.splitOn_ne_nil ' ' (trim command))
  rw [hsplit]
  cases rest with
  | nil =>
    constructor
    · intro h
      cases h
    · rintro ⟨first, rest, rfl, hne, hcut, -⟩
      exact absurd (List.cons_eq_cons.1 hcut).2.symm hne
  | cons second rest =>
    rw [if_neg (by simp), List.headD_cons]
    constructor
    · intro h
      split at h
      · cases h
      · rename_i opr' hopr
        obtain ⟨rfl, rfl⟩ := Prod.mk.inj (Option.some.inj h)
        exact ⟨first, second :: rest, rfl, List.cons_ne_nil _ _, rfl, hopr⟩
    · rintro ⟨first, rest, rfl, -, hcut, hopr⟩
      obtain ⟨rfl, rfl⟩ := List.cons_eq_cons.1 hcut
      rw [hopr]

/-- What `validate` has checked: there is a keyword, and a word after it. -/
theorem validate_eq_some {command opr : Text} {words : List Text}
    (h : validate command = some (opr, words)) :
    (opr = setWord ∨ opr = getWord ∨ opr = deleteWord) ∧ 2 ≤ words.length := by
  obtain ⟨first, rest, rfl, hne, -, hopr⟩ := validate_eq_some_iff.1 h
  have hpos := List.length_pos_of_ne_nil hne
  exact ⟨(parseOpr_eq_some_iff.1 hopr).2, by rw [List.length_cons]; omega⟩

/-- **Parsing panics exactly on a `set` without a value.** -/
theorem Operation.parseCommand_eq_none_iff {command : Text} :
    parseCommand command = none ↔ lacksValue command = true := by
  unfold parseCommand lacksValue
  cases hvalid : validate command with
  | none => simp
  | some result =>
    obtain ⟨opr, words⟩ := result
    obtain ⟨hword, hlen⟩ := validate_eq_some hvalid
    have hone : words[1]? = some words[1] := List.getElem?_eq_getElem (by omega)
    rcases hword with rfl | rfl | rfl
    · by_cases htwo : words.length = 2
      · simp [htwo, setWord, getWord]
      · have hget : words[2]? = some words[2] := List.getElem?_eq_getElem (by omega)
        simp [hone, hget, htwo, setWord, getWord]
    · simp [hone, setWord, getWord]
    · simp [hone, setWord, getWord, deleteWord]

/-! ## Text as bytes -/

/-- `String::into_bytes`. -/
def encode (text : Text) : Bytes := text.flatMap String.utf8EncodeChar

/-- `String::from_utf8`. -/
def fromUtf8 (bytes : Bytes) : Option Text := bytes.toByteArray.utf8Decode?.map Array.toList

@[simp] theorem fromUtf8_encode (text : Text) : fromUtf8 (encode text) = some text := by
  have h : (encode text).toByteArray.utf8Decode? = some text.toArray :=
    List.utf8Decode?_utf8Encode
  rw [fromUtf8, h, Option.map_some, List.toList_toArray]

theorem encode_append (text text' : Text) : encode (text ++ text') = encode text ++ encode text' :=
  List.flatMap_append

@[simp] theorem encode_eq_nil {text : Text} : encode text = [] ↔ text = [] := by
  rw [encode, List.flatMap_eq_nil_iff, List.eq_nil_iff_forall_not_mem]
  simp

/-! ## Replies -/

/-- The reply to a write. -/
def okReply : Text := ['O', 'K', '.']

/-- The reply to a write on a node whose flag is not set. -/
def notLeaderReply : Text :=
  ['E', 'R', 'R', '.', ' ', 'N', 'o', 't', ' ', 'L', 'e', 'a', 'd', 'e', 'r']

/-- The reply to a `get` of a key that is not stored. -/
def undefinedReply : Text := ['u', 'n', 'd', 'e', 'f', 'i', 'n', 'e', 'd']

/-- The greeting of `main` on a node whose flag is not set. -/
def warnReply : Text :=
  ['W', 'A', 'R', 'N', '.', ' ', 'N', 'o', 't', ' ', 'L', 'e', 'a', 'd', 'e', 'r']

/-- A value between quotation marks. -/
def quoted (value : Text) : Text := '\x22' :: value ++ ['\x22']

end Quaso
