import Mathlib.Data.List.Infix
import Mathlib.Order.WellFounded

/-!
# Logs of entries with terms

A log is a list of entries, each with the term it was written in, and in each
term at most one writer appends.  A `Ledger` holds what the writer of each term
has written so far: its whole log, inherited entries included.

* `Consistent` — every entry of a log stands in the ledger's log of its term, after
  the same entries.  Two consistent logs match: `Consistent.matching`.
* `Cuts` — the part of a log that follows an announced position; joined to a
  consistent log that ends there it gives the whole again: `Cuts.join`.
* `Covers` — one log is at least as up to date as another.
* `prefix_of_elected` — a prefix that ends in an entry of its writer's term is in
  the log of every later writer, if each of them started from a log that covers
  one with the prefix.
-/

namespace Quaso
namespace TermLog

variable {α τ : Type} {term : α → τ}

/-- What the writer of each term has written so far. -/
abbrev Ledger (α τ : Type) := τ → Option (List α)

variable {ledger ledger' : Ledger α τ} {l l' base base' : List α}

/-! ## Consistent logs -/

/-- Every entry of the log stands in the ledger's log of its term, after the same
entries. -/
def Consistent (term : α → τ) (ledger : Ledger α τ) (l : List α) : Prop :=
  ∀ k e, l[k]? = some e → ∃ L, ledger (term e) = some L ∧ l.take (k + 1) <+: L

/-- The second ledger has all that the first has, and perhaps more at the end of its
logs. -/
def Extends (ledger ledger' : Ledger α τ) : Prop :=
  ∀ t L, ledger t = some L → ∃ L', ledger' t = some L' ∧ L <+: L'

namespace Consistent

theorem nil (term : α → τ) (ledger : Ledger α τ) : Consistent term ledger [] := by
  intro k e h
  simp at h

theorem of_extends (h : Consistent term ledger l) (hext : Extends ledger ledger') :
    Consistent term ledger' l := by
  intro k e hget
  obtain ⟨L, hL, hpre⟩ := h k e hget
  obtain ⟨L', hL', hpre'⟩ := hext _ L hL
  exact ⟨L', hL', hpre.trans hpre'⟩

theorem of_isPrefix (h : Consistent term ledger l) (hpre : l' <+: l) :
    Consistent term ledger l' := by
  obtain ⟨rest, rfl⟩ := hpre
  intro k e hget
  have hlt := (List.getElem?_eq_some_iff.1 hget).1
  have hget' : (l' ++ rest)[k]? = some e := by rw [List.getElem?_append_left hlt, hget]
  obtain ⟨L, hL, hpre⟩ := h k e hget'
  rw [List.take_append_of_le_length hlt] at hpre
  exact ⟨L, hL, hpre⟩

/-- The writer of a term appends an entry of that term. -/
theorem append (h : Consistent term ledger l) {e : α} (he : ledger (term e) = some (l ++ [e])) :
    Consistent term ledger (l ++ [e]) := by
  intro k x hget
  rcases Nat.lt_or_ge k l.length with hlt | hge
  · rw [List.getElem?_append_left hlt] at hget
    rw [List.take_append_of_le_length hlt]
    exact h k x hget
  · have hlt := (List.getElem?_eq_some_iff.1 hget).1
    rw [List.length_append, List.length_singleton] at hlt
    obtain rfl : k = l.length := by omega
    obtain rfl : e = x := by simpa using hget
    exact ⟨_, he, List.take_prefix _ _⟩

/-- The whole log is a prefix of what the writer of its last entry has written. -/
theorem prefix_of_getLast? (h : Consistent term ledger l) {e : α} (he : l.getLast? = some e) :
    ∃ L, ledger (term e) = some L ∧ l <+: L := by
  rw [List.getLast?_eq_getElem?] at he
  obtain ⟨L, hL, hpre⟩ := h _ e he
  have hlt := (List.getElem?_eq_some_iff.1 he).1
  rw [List.take_of_length_le (by omega)] at hpre
  exact ⟨L, hL, hpre⟩

/-- **Log matching.**  Two consistent logs with entries of the same term at the same
position agree up to it. -/
theorem matching (h : Consistent term ledger l) (h' : Consistent term ledger l') {k : Nat}
    {e e' : α} (he : l[k]? = some e) (he' : l'[k]? = some e') (hterm : term e = term e') :
    l.take (k + 1) = l'.take (k + 1) := by
  obtain ⟨L, hL, hpre⟩ := h k e he
  obtain ⟨L', hL', hpre'⟩ := h' k e' he'
  rw [hterm, hL'] at hL
  obtain rfl := Option.some.inj hL
  have hlt := (List.getElem?_eq_some_iff.1 he).1
  have hlt' := (List.getElem?_eq_some_iff.1 he').1
  refine (List.prefix_of_prefix_length_le hpre hpre' ?_).eq_of_length ?_ <;>
    rw [List.length_take, List.length_take] <;> omega

end Consistent

/-! ## Parts of a log -/

/-- `entries` is what follows the first `prev` entries of `base`, and the entry before
them is of term `prevTerm`. -/
def Cuts (term : α → τ) (prev : Nat) (prevTerm : τ) (entries base : List α) : Prop :=
  prev ≤ base.length ∧ entries = base.drop prev ∧
    (0 < prev → ∃ e, base[prev - 1]? = some e ∧ term e = prevTerm)

namespace Cuts

variable {prev : Nat} {prevTerm : τ} {entries : List α}

/-- A consistent log that ends where the part begins, in the announced term, is
continued to the log the part was cut from. -/
theorem join (h : Cuts term prev prevTerm entries base) (hbase : Consistent term ledger base)
    (hl : Consistent term ledger l) (hlen : l.length = prev)
    (hlast : 0 < prev → ∃ e, l[prev - 1]? = some e ∧ term e = prevTerm) :
    l ++ entries = base := by
  obtain ⟨hle, rfl, hprev⟩ := h
  have htake : l = base.take prev := by
    rcases Nat.eq_zero_or_pos prev with hzero | hpos
    · rw [hzero, List.take_zero]
      exact List.eq_nil_of_length_eq_zero (hlen.trans hzero)
    · obtain ⟨e, he, hterm⟩ := hlast hpos
      obtain ⟨e', he', hterm'⟩ := hprev hpos
      have hmatch := hl.matching hbase he he' (hterm.trans hterm'.symm)
      rw [Nat.sub_add_cancel hpos] at hmatch
      rwa [List.take_of_length_le hlen.le] at hmatch
  rw [htake, List.take_append_drop]

/-- A part determines the consistent log it was cut from. -/
theorem unique (h : Cuts term prev prevTerm entries base)
    (h' : Cuts term prev prevTerm entries base') (hbase : Consistent term ledger base)
    (hbase' : Consistent term ledger base') : base = base' := by
  obtain ⟨hle, hentries, hprev⟩ := h'
  have hjoin := h.join hbase (hbase'.of_isPrefix (List.take_prefix prev base'))
    (by rw [List.length_take]; omega) (fun hpos => by
      obtain ⟨e, he, hterm⟩ := hprev hpos
      exact ⟨e, by rw [List.getElem?_take_of_lt (by omega), he], hterm⟩)
  rw [← hjoin, hentries, List.take_append_drop]

end Cuts

/-! ## Up-to-date logs and later writers -/

section Order

variable [LinearOrder τ]

/-- The first log is at least as up to date as the second: its last term is later, or
it is the same and the log is not shorter. -/
def Covers (term : α → τ) (b l : List α) : Prop :=
  ∀ x, l.getLast? = some x → ∃ y, b.getLast? = some y ∧
    (term x < term y ∨ term x = term y ∧ l.length ≤ b.length)

theorem Covers.refl (l : List α) : Covers term l l :=
  fun x hx => ⟨x, hx, Or.inr ⟨rfl, le_rfl⟩⟩

/-- **Later writers keep the prefix.**  Let `N` be written in term `t`, up to an entry
of that term.  If every writer of a later term started from a log `b` that covers some
log with the prefix `N`, then every log of a later term has the prefix `N`. -/
theorem prefix_of_elected (term : α → τ) [WellFoundedLT τ] {t : τ} {N : List α}
    (hbound : ∀ u L, ledger u = some L → ∀ e ∈ L, term e ≤ u)
    (hlast : ∃ e, N.getLast? = some e ∧ term e = t) (hN : ∃ L, ledger t = some L ∧ N <+: L)
    (helected : ∀ u L, t < u → ledger u = some L → ∃ l b, N <+: l ∧ Covers term b l ∧
      Consistent term ledger l ∧ Consistent term ledger b ∧ (∀ e ∈ b, term e < u) ∧ b <+: L)
    (u : τ) : ∀ L, t < u → ledger u = some L → N <+: L := by
  induction u using WellFoundedLT.induction with
  | ind u ih =>
    intro L hlt hL
    obtain ⟨l, b, hNl, hcovers, hl, hb, hterms, hbL⟩ := helected u L hlt hL
    obtain ⟨e, he, rfl⟩ := hlast
    obtain ⟨Lt, hLt, hNLt⟩ := hN
    have heN : e ∈ N := List.mem_of_getLast? he
    -- the last entry of the covered log is not older than the prefix
    obtain ⟨x, hx⟩ : ∃ x, l.getLast? = some x := by
      rw [← Option.isSome_iff_exists, List.getLast?_isSome]
      exact List.ne_nil_of_mem (hNl.mem heN)
    obtain ⟨Lx, hLx, hlLx⟩ := hl.prefix_of_getLast? hx
    have hex : term e ≤ term x := hbound _ Lx hLx e (hlLx.mem (hNl.mem heN))
    obtain ⟨y, hy, hxy⟩ := hcovers x hx
    obtain ⟨Ly, hLy, hbLy⟩ := hb.prefix_of_getLast? hy
    have hyu : term y < u := hterms y (List.mem_of_getLast? hy)
    have hey : term e ≤ term y := hex.trans (hxy.elim le_of_lt fun h => h.1.le)
    rcases hey.lt_or_eq with hlate | hsame
    · -- the log it started from ends in a later term, whose writer kept the prefix
      have hNLy := ih _ hyu Ly hlate hLy
      rcases Nat.le_total N.length b.length with hle | hle
      · exact (List.prefix_of_prefix_length_le hNLy hbLy hle).trans hbL
      · have hbN := List.prefix_of_prefix_length_le hbLy hNLy hle
        have := hbound _ Lt hLt y (hNLt.mem (hbN.mem (List.mem_of_getLast? hy)))
        exact absurd this (not_le.2 hlate)
    · -- both logs end in the term of the prefix, and the longer one has it all
      have hlen : l.length ≤ b.length := by
        rcases hxy with hlt' | ⟨_, hlen⟩
        · exact absurd (hex.trans_lt hlt') (hsame ▸ lt_irrefl _)
        · exact hlen
      rw [← hsame, hLt] at hLy
      obtain rfl := Option.some.inj hLy
      exact (List.prefix_of_prefix_length_le hNLt hbLy (hNl.length_le.trans hlen)).trans hbL

end Order

end TermLog
end Quaso
