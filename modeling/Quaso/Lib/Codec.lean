import Mathlib.Algebra.Ring.Nat
import Mathlib.Data.List.Basic

/-!
# Codecs

A codec writes values as bytes and reads them from the front of a stream.  Its values are
those that fit; of the bytes of such a value no proper beginning can be read, so a reader
of a stream that is cut off knows that it is.

* `Codec` — encoding, decoding, and the two laws that connect them.
* `Codec.unit`, `Codec.word`, `Codec.bool` — nothing, numbers in a fixed number of bytes,
  the low byte first, and truth values.
* `Codec.embed`, `Codec.convert` — the values of a codec as values of another type.
* `Codec.seq`, `Codec.list`, `Codec.variants` — one value after the other, lists with
  their length in front, and alternatives with their number in front.
-/

namespace Quaso

/-- A format for the values of a type that fit. -/
structure Codec (α : Type) where
  encode : α → List UInt8
  /-- Reads a value from the front, and leaves the rest. -/
  decode : List UInt8 → Option (α × List UInt8)
  fits : α → Bool
  decode_encode : ∀ {a}, fits a = true → ∀ rest, decode (encode a ++ rest) = some (a, rest)
  /-- A proper beginning is not read. -/
  short : ∀ {a}, fits a = true → ∀ {k}, k < (encode a).length → decode ((encode a).take k) = none

namespace Codec

variable {α β : Type}

/-- A value from the front, whatever comes after it. -/
def read (A : Codec α) (bytes : List UInt8) : Option α := (A.decode bytes).map Prod.fst

theorem read_encode (A : Codec α) {a : α} (h : A.fits a = true) : A.read (A.encode a) = some a := by
  have hdecode := A.decode_encode h []
  rw [List.append_nil] at hdecode
  rw [read, hdecode, Option.map_some]

theorem read_short (A : Codec α) {a : α} (h : A.fits a = true) {k : Nat}
    (hk : k < (A.encode a).length) : A.read ((A.encode a).take k) = none := by
  rw [read, A.short h hk, Option.map_none]

/-! ## Numbers -/

/-- The low bytes of a number, the lowest first. -/
def encodeWord : Nat → Nat → List UInt8
  | 0, _ => []
  | width + 1, value => UInt8.ofNat value :: encodeWord width (value / 256)

def decodeWord : Nat → List UInt8 → Option (Nat × List UInt8)
  | 0, bytes => some (0, bytes)
  | _ + 1, [] => none
  | width + 1, byte :: bytes =>
    (decodeWord width bytes).map fun (value, rest) => (byte.toNat + 256 * value, rest)

theorem length_encodeWord (width value : Nat) : (encodeWord width value).length = width := by
  induction width generalizing value with
  | zero => rfl
  | succ width ih => simp [encodeWord, ih]

theorem decodeWord_encodeWord {width value : Nat} (h : value < 256 ^ width)
    (rest : List UInt8) :
    decodeWord width (encodeWord width value ++ rest) = some (value, rest) := by
  induction width generalizing value with
  | zero => simp [encodeWord, decodeWord, Nat.lt_one_iff.1 (by simpa using h)]
  | succ width ih =>
    have hhigh : value / 256 < 256 ^ width := by
      rw [Nat.div_lt_iff_lt_mul (by decide)]
      rwa [Nat.pow_succ] at h
    simp only [encodeWord, List.cons_append, decodeWord, ih hhigh, Option.map_some]
    simp [Nat.mod_add_div]

theorem decodeWord_eq_none {width : Nat} {bytes : List UInt8} (h : bytes.length < width) :
    decodeWord width bytes = none := by
  induction width generalizing bytes with
  | zero => cases h
  | succ width ih =>
    cases bytes with
    | nil => rfl
    | cons byte bytes => rw [decodeWord, ih (Nat.lt_of_succ_lt_succ h), Option.map_none]

/-- A number in `width` bytes, little-endian. -/
def word (width : Nat) : Codec Nat where
  encode := encodeWord width
  decode := decodeWord width
  fits value := decide (value < 256 ^ width)
  decode_encode h := decodeWord_encodeWord (of_decide_eq_true h)
  short _ _ hk := by
    rw [length_encodeWord] at hk
    refine decodeWord_eq_none ?_
    rw [List.length_take, length_encodeWord]
    omega

/-- Nothing, in no bytes. -/
def unit : Codec Unit where
  encode _ := []
  decode bytes := some ((), bytes)
  fits _ := true
  decode_encode _ _ := rfl
  short _ _ hk := absurd hk (Nat.not_lt_zero _)

/-- A truth value in one byte. -/
def bool : Codec Bool where
  encode b := [if b then 1 else 0]
  decode
    | 0 :: rest => some (false, rest)
    | 1 :: rest => some (true, rest)
    | _ => none
  fits _ := true
  decode_encode {b} _ _ := by cases b <;> rfl
  short {b} _ {k} hk := by
    obtain rfl : k = 0 := Nat.lt_one_iff.1 hk
    rfl

/-! ## Values of another type -/

/-- The values of a codec, as some of the values of another type. -/
def embed (A : Codec α) (f : α → β) (g : β → Option α) (hfg : ∀ {a b}, g b = some a → f a = b) :
    Codec β where
  encode b := ((g b).map A.encode).getD []
  decode bytes := (A.decode bytes).map fun (a, rest) => (f a, rest)
  fits b := (g b).any A.fits
  decode_encode {b} h rest := by
    obtain ⟨a, hb, ha⟩ := (Option.any_eq_true _ _).1 h
    simp [hb, A.decode_encode ha, hfg hb]
  short {b} h {k} hk := by
    obtain ⟨a, hb, ha⟩ := (Option.any_eq_true _ _).1 h
    simp only [hb, Option.map_some, Option.getD_some] at hk ⊢
    rw [A.short ha hk, Option.map_none]

/-- The values of another type as some of the values of a codec: what is read may still be
rejected. -/
def convert (A : Codec α) (f : α → Option β) (g : β → α) (hfg : ∀ b, f (g b) = some b) :
    Codec β where
  encode b := A.encode (g b)
  decode bytes := (A.decode bytes).bind fun (a, rest) => (f a).map fun b => (b, rest)
  fits b := A.fits (g b)
  decode_encode {b} h rest := by simp [A.decode_encode h, hfg]
  short {b} h {k} hk := by rw [A.short h hk, Option.bind_none]

/-! ## One value after the other -/

/-- A proper beginning of two pieces ends in the first, or in the second. -/
theorem take_append_cases {first second : List UInt8} {k : Nat}
    (hk : k < (first ++ second).length) :
    (k < first.length ∧ (first ++ second).take k = first.take k) ∨
      ∃ j, j < second.length ∧ (first ++ second).take k = first ++ second.take j := by
  rw [List.length_append] at hk
  rcases Nat.lt_or_ge k first.length with hlt | hge
  · exact Or.inl ⟨hlt, List.take_append_of_le_length (Nat.le_of_lt hlt)⟩
  · refine Or.inr ⟨k - first.length, by omega, ?_⟩
    rw [List.take_append, List.take_of_length_le hge]

/-- Two values, one after the other. -/
def seq (A : Codec α) (B : Codec β) : Codec (α × β) where
  encode p := A.encode p.1 ++ B.encode p.2
  decode bytes := (A.decode bytes).bind fun (a, rest) =>
    (B.decode rest).map fun (b, rest) => ((a, b), rest)
  fits p := A.fits p.1 && B.fits p.2
  decode_encode {p} h rest := by
    obtain ⟨hA, hB⟩ := Bool.and_eq_true_iff.1 h
    simp [List.append_assoc, A.decode_encode hA, B.decode_encode hB]
  short {p} h {k} hk := by
    obtain ⟨hA, hB⟩ := Bool.and_eq_true_iff.1 h
    rcases take_append_cases hk with ⟨hlt, heq⟩ | ⟨j, hlt, heq⟩
    · rw [heq, A.short hA hlt, Option.bind_none]
    · rw [heq, A.decode_encode hA]
      simp [B.short hB hlt]

/-- As many values as given, one after the other. -/
def decodeMany (A : Codec α) : Nat → List UInt8 → Option (List α × List UInt8)
  | 0, bytes => some ([], bytes)
  | count + 1, bytes =>
    (A.decode bytes).bind fun (a, rest) =>
      (decodeMany A count rest).map fun (as, rest) => (a :: as, rest)

theorem decodeMany_append (A : Codec α) {as : List α} (h : as.all A.fits = true)
    (rest : List UInt8) :
    A.decodeMany as.length (as.flatMap A.encode ++ rest) = some (as, rest) := by
  induction as with
  | nil => rfl
  | cons a as ih =>
    rw [List.all_cons, Bool.and_eq_true_iff] at h
    simp [decodeMany, List.append_assoc, A.decode_encode h.1, ih h.2]

theorem decodeMany_short (A : Codec α) {as : List α} (h : as.all A.fits = true) {k : Nat}
    (hk : k < (as.flatMap A.encode).length) :
    A.decodeMany as.length ((as.flatMap A.encode).take k) = none := by
  induction as generalizing k with
  | nil => cases hk
  | cons a as ih =>
    rw [List.all_cons, Bool.and_eq_true_iff] at h
    rw [List.flatMap_cons] at hk ⊢
    rcases take_append_cases hk with ⟨hlt, heq⟩ | ⟨j, hlt, heq⟩
    · rw [heq, List.length_cons, decodeMany, A.short h.1 hlt, Option.bind_none]
    · rw [heq, List.length_cons, decodeMany, A.decode_encode h.1]
      simp [ih h.2 hlt]

/-- A list, with its length in eight bytes in front. -/
def list (A : Codec α) : Codec (List α) where
  encode as := (word 8).encode as.length ++ as.flatMap A.encode
  decode bytes := ((word 8).decode bytes).bind fun (count, rest) => A.decodeMany count rest
  fits as := (word 8).fits as.length && as.all A.fits
  decode_encode h rest := by
    obtain ⟨hlength, hall⟩ := Bool.and_eq_true_iff.1 h
    rw [List.append_assoc, (word 8).decode_encode hlength]
    exact A.decodeMany_append hall rest
  short {as} h {k} hk := by
    obtain ⟨hlength, hall⟩ := Bool.and_eq_true_iff.1 h
    rcases take_append_cases hk with ⟨hlt, heq⟩ | ⟨j, hlt, heq⟩
    · rw [heq, (word 8).short hlength hlt, Option.bind_none]
    · rw [heq, (word 8).decode_encode hlength]
      exact A.decodeMany_short hall hlt

/-! ## Alternatives -/

/-- One of several formats, with its number in four bytes in front. -/
def variants (formats : List (Codec α)) (number : α → Nat) : Codec α where
  encode a := (word 4).encode (number a) ++ ((formats[number a]?).map (·.encode a)).getD []
  decode bytes := ((word 4).decode bytes).bind fun (i, rest) =>
    (formats[i]?).bind fun A => A.decode rest
  fits a := (word 4).fits (number a) && (formats[number a]?).any (·.fits a)
  decode_encode {a} h rest := by
    obtain ⟨hnumber, hany⟩ := Bool.and_eq_true_iff.1 h
    obtain ⟨A, hA, hfits⟩ := (Option.any_eq_true _ _).1 hany
    rw [List.append_assoc, (word 4).decode_encode hnumber]
    simp [hA, A.decode_encode hfits]
  short {a} h {k} hk := by
    obtain ⟨hnumber, hany⟩ := Bool.and_eq_true_iff.1 h
    obtain ⟨A, hA, hfits⟩ := (Option.any_eq_true _ _).1 hany
    simp only [hA, Option.map_some, Option.getD_some] at hk ⊢
    rcases take_append_cases hk with ⟨hlt, heq⟩ | ⟨j, hlt, heq⟩
    · rw [heq, (word 4).short hnumber hlt, Option.bind_none]
    · rw [heq, (word 4).decode_encode hnumber]
      simp [hA, A.short hfits hlt]

/-- A value with a number in front is never written in no bytes. -/
theorem variants_encode_ne_nil (formats : List (Codec α)) (number : α → Nat) (a : α) :
    (variants formats number).encode a ≠ [] := by
  intro h
  have hlength := congrArg List.length (List.append_eq_nil_iff.1 h).1
  exact absurd ((length_encodeWord 4 (number a)).symm.trans hlength) (by decide)

end Codec
end Quaso
