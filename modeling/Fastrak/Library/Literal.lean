import Fastrak.Library.Text
import Mathlib.Algebra.Group.Nat.Defs
import Mathlib.Data.List.Forall2

/-!
# Quoted text literals

`quoted t` is the literal of a text: the text between two quotes, with the quote, the
backslash and what is not printable escaped. A literal ends itself: whatever
follows it, the text it was made from can be read back (`quoted_append_inj`).

Two texts are `Apart` when they differ before either of them ends, so that they stay
different in front of any two continuations.
-/

namespace Fastrak

namespace Text

/-! ## Texts that differ before they end -/

def Apart (u v : Text) : Prop := ∀ x y, u ++ x ≠ v ++ y

variable {t t' u v w : Text}

theorem Apart.ne (h : Apart u v) : u ≠ v := by
  rintro rfl
  exact h [] [] rfl

theorem Apart.append (h : Apart u v) (u' v' : Text) : Apart (u ++ u') (v ++ v') := by
  intro x y
  rw [List.append_assoc, List.append_assoc]
  exact h _ _

theorem apart_append_left_iff : Apart (w ++ u) (w ++ v) ↔ Apart u v := by
  unfold Apart
  simp only [List.append_assoc, ne_eq, List.append_cancel_left_eq]

/-- Two lists of the same fields, some of them apart. -/
theorem apart_intercalate (sep : Text) {l l' : List Text}
    (h : List.Forall₂ (fun u v => u = v ∨ Apart u v) l l') (hne : l ≠ l') :
    Apart (sep.intercalate l) (sep.intercalate l') := by
  induction h with
  | nil => exact absurd rfl hne
  | @cons u v us vs huv hs ih =>
      rcases hs with _ | ⟨hu', hs'⟩
      · rcases huv with rfl | huv
        · exact absurd rfl hne
        · simpa using huv
      · rw [List.intercalate_cons_cons, List.intercalate_cons_cons]
        rcases huv with rfl | huv
        · rw [List.append_assoc, List.append_assoc, apart_append_left_iff, apart_append_left_iff]
          exact ih fun heq => hne (congrArg (u :: ·) heq)
        · rw [List.append_assoc, List.append_assoc]
          exact huv.append _ _

theorem Apart.intercalate (sep : Text) (before after : List Text) (h : Apart u v) :
    Apart (sep.intercalate (before ++ u :: after)) (sep.intercalate (before ++ v :: after)) := by
  have hsame : ∀ us : List Text, List.Forall₂ (fun u v => u = v ∨ Apart u v) us us :=
    fun us => List.forall₂_same.mpr fun _ _ => .inl rfl
  refine apart_intercalate sep (List.rel_append (hsame before) (.cons (.inr h) (hsame after))) ?_
  intro heq
  exact h.ne (List.cons.inj (List.append_cancel_left heq)).1

end Text

namespace Literal

/-! ## Hexadecimal digits -/

/-- The last `w` hexadecimal digits of `n`. -/
def hex : ℕ → ℕ → Text
  | 0, _ => []
  | w + 1, n => hex w (n / 16) ++ [Nat.digitChar (n % 16)]

def hexValue (c : Char) : ℕ := if c.isDigit then c.toNat - '0'.toNat else c.toNat - 'a'.toNat + 10

def readHex (t : Text) : ℕ := t.foldl (fun n c => n * 16 + hexValue c) 0

theorem length_hex (w n : ℕ) : (hex w n).length = w := by
  induction w generalizing n with
  | zero => rfl
  | succ w ih => rw [hex, List.length_append, ih, List.length_singleton]

theorem hexValue_digitChar : ∀ d < 16, hexValue (Nat.digitChar d) = d := by decide

theorem readHex_hex {w n : ℕ} (h : n < 16 ^ w) : readHex (hex w n) = n := by
  induction w generalizing n with
  | zero =>
      have hn : n = 0 := by simpa using h
      rw [hn]
      rfl
  | succ w ih =>
      have hdiv : n / 16 < 16 ^ w := by
        rw [Nat.div_lt_iff_lt_mul (by decide), ← Nat.pow_succ]
        exact h
      have hn := ih hdiv
      rw [readHex] at hn
      rw [hex, readHex, List.foldl_append, hn, List.foldl_cons, List.foldl_nil,
        hexValue_digitChar _ (Nat.mod_lt n (by decide)), Nat.div_add_mod']

/-! ## Characters -/

/-- `printable` says which of the characters after ASCII are printable. -/
def escape (printable : Char → Bool) (q c : Char) : Text :=
  if c = q ∨ c = '\\' then ['\\', c]
  else if c = '\t' then ['\\', 't']
  else if c = '\n' then ['\\', 'n']
  else if c = '\r' then ['\\', 'r']
  else if 0x20 ≤ c.toNat ∧ c.toNat ≠ 0x7f ∧ (c.toNat < 0x7f ∨ printable c) then [c]
  else if c.toNat ≤ 0xff then '\\' :: 'x' :: hex 2 c.toNat
  else if c.toNat ≤ 0xffff then '\\' :: 'u' :: hex 4 c.toNat
  else '\\' :: 'U' :: hex 8 c.toNat

/-- How many digits follow the mark of a hexadecimal escape. -/
def width : Char → Option ℕ
  | 'x' => some 2
  | 'u' => some 4
  | 'U' => some 8
  | _ => none

/-- What the other escapes stand for. -/
def unescape : Char → Char
  | 't' => '\t'
  | 'n' => '\n'
  | 'r' => '\r'
  | c => c

/-- The first character of an escaped text, and what is left. -/
def readChar : Text → Option (Char × Text)
  | [] => none
  | c :: t =>
      if c ≠ '\\' then some (c, t)
      else match t with
        | [] => none
        | m :: t =>
            match width m with
            | some w => some (Char.ofNat (readHex (t.take w)), t.drop w)
            | none => some (unescape m, t)

variable {printable : Char → Bool} {q c : Char} {t t' x y : Text}

theorem readChar_cons (h : c ≠ '\\') : readChar (c :: t) = some (c, t) := by
  simp [readChar, h]

theorem readChar_hex {m : Char} {w : ℕ} (hm : width m = some w) (hc : c.toNat < 16 ^ w) :
    readChar ('\\' :: m :: (hex w c.toNat ++ t)) = some (c, t) := by
  have htake : (hex w c.toNat ++ t).take w = hex w c.toNat := List.take_left' (length_hex w _)
  have hdrop : (hex w c.toNat ++ t).drop w = t := List.drop_left' (length_hex w _)
  simp [readChar, hm, htake, hdrop, readHex_hex hc, Char.ofNat_toNat]

theorem readChar_unescape {m : Char} (hm : width m = none) :
    readChar ('\\' :: m :: t) = some (unescape m, t) := by
  simp [readChar, hm]

theorem width_quote (hq : q = '\'' ∨ q = '"') : width q = none := by
  rcases hq with rfl | rfl <;> rfl

theorem unescape_quote (hq : q = '\'' ∨ q = '"') : unescape q = q := by
  rcases hq with rfl | rfl <;> rfl

/-- An escaped character is read back, whatever follows it. -/
theorem readChar_escape (hq : q = '\'' ∨ q = '"') (c : Char) (t : Text) :
    readChar (escape printable q c ++ t) = some (c, t) := by
  unfold escape
  by_cases hquote : c = q ∨ c = '\\'
  · rw [if_pos hquote]
    rcases hquote with rfl | rfl
    · have hread := readChar_unescape (t := t) (width_quote hq)
      rw [unescape_quote hq] at hread
      exact hread
    · exact readChar_unescape rfl
  rw [if_neg hquote]
  by_cases htab : c = '\t'
  · rw [if_pos htab, htab]
    exact readChar_unescape rfl
  rw [if_neg htab]
  by_cases hline : c = '\n'
  · rw [if_pos hline, hline]
    exact readChar_unescape rfl
  rw [if_neg hline]
  by_cases hreturn : c = '\r'
  · rw [if_pos hreturn, hreturn]
    exact readChar_unescape rfl
  rw [if_neg hreturn]
  split
  · exact readChar_cons fun h => hquote (.inr h)
  split
  · next h => exact readChar_hex rfl (by omega)
  split
  · next h => exact readChar_hex rfl (by omega)
  · have hc : c.toNat < 2 ^ 32 := c.val.toNat_lt
    exact readChar_hex rfl (by omega)

/-- No escaped character begins with the quote. -/
theorem escape_ne_quote (hq : q = '\'' ∨ q = '"') : escape printable q c ++ x ≠ q :: y := by
  have hslash : q ≠ '\\' := by rcases hq with rfl | rfl <;> decide
  intro h
  by_cases hc : c = q
  · rw [escape, if_pos (.inl hc)] at h
    exact hslash (List.cons.inj h).1.symm
  · have hread : readChar (escape printable q c ++ x) = some (c, x) := readChar_escape hq c x
    rw [h, readChar_cons hslash] at hread
    exact hc (Prod.mk.inj (Option.some.inj hread)).1.symm

/-! ## Literals -/

/-- A text is quoted with double quotes when it has single quotes only. -/
def quote (t : Text) : Char := if '\'' ∈ t ∧ '"' ∉ t then '"' else '\''

theorem quote_eq (t : Text) : quote t = '\'' ∨ quote t = '"' := by
  unfold quote
  split
  · exact .inr rfl
  · exact .inl rfl

/-- `repr(t)` -/
def quoted (printable : Char → Bool) (t : Text) : Text :=
  quote t :: (t.flatMap (escape printable (quote t)) ++ [quote t])

theorem flatMap_escape_inj (hq : q = '\'' ∨ q = '"')
    (h : t.flatMap (escape printable q) ++ q :: x = t'.flatMap (escape printable q) ++ q :: y) :
    t = t' ∧ x = y := by
  induction t generalizing t' with
  | nil =>
      cases t' with
      | nil => exact ⟨rfl, (List.cons.inj h).2⟩
      | cons d t' =>
          rw [List.flatMap_cons, List.append_assoc] at h
          exact absurd h.symm (escape_ne_quote hq)
  | cons c t ih =>
      cases t' with
      | nil =>
          rw [List.flatMap_cons, List.append_assoc] at h
          exact absurd h (escape_ne_quote hq)
      | cons d t' =>
          rw [List.flatMap_cons, List.flatMap_cons, List.append_assoc, List.append_assoc] at h
          have hread := congrArg readChar h
          rw [readChar_escape hq, readChar_escape hq] at hread
          obtain ⟨rfl, hrest⟩ := Prod.mk.inj (Option.some.inj hread)
          obtain ⟨rfl, hxy⟩ := ih hrest
          exact ⟨rfl, hxy⟩

/-- A literal ends itself. -/
theorem quoted_append_inj (h : quoted printable t ++ x = quoted printable t' ++ y) :
    t = t' ∧ x = y := by
  rw [quoted, quoted, List.cons_append, List.cons_append] at h
  obtain ⟨hq, h⟩ := List.cons.inj h
  rw [← hq, List.append_assoc, List.append_assoc] at h
  exact flatMap_escape_inj (quote_eq t) h

theorem apart_quoted (h : t ≠ t') : Text.Apart (quoted printable t) (quoted printable t') :=
  fun _ _ heq => h (quoted_append_inj heq).1

end Literal

end Fastrak
