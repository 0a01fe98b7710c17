import Mathlib.Data.List.Basic

/-!
# Base64

`encode` writes three bytes as four letters and fills the last group up with `=`.
`decode` reads bytes one by one: it skips what is no letter, stops at a complete
padding, and refuses an input that ends inside a group. It keeps the position in the
group and the bits it has not yet put out.
-/

namespace Fastrak

namespace Base64

/-- The letter for six bits: `A` to `Z`, `a` to `z`, `0` to `9`, `+` and `/`. -/
def letter (n : ℕ) : Char :=
  if n < 26 then Char.ofNat (65 + n)
  else if n < 52 then Char.ofNat (71 + n)
  else if n < 62 then Char.ofNat (n - 4)
  else if n = 62 then '+'
  else '/'

/-- The six bits of a letter. -/
def value? (c : UInt8) : Option ℕ :=
  if 65 ≤ c ∧ c ≤ 90 then some (c.toNat - 65)
  else if 97 ≤ c ∧ c ≤ 122 then some (c.toNat - 71)
  else if 48 ≤ c ∧ c ≤ 57 then some (c.toNat + 4)
  else if c = 43 then some 62
  else if c = 47 then some 63
  else none

def pad : UInt8 := 61

def encode : List UInt8 → List Char
  | [] => []
  | [a] => [letter (a.toNat / 4), letter (a.toNat % 4 * 16), '=', '=']
  | [a, b] =>
      [letter (a.toNat / 4), letter (a.toNat % 4 * 16 + b.toNat / 16),
        letter (b.toNat % 16 * 4), '=']
  | a :: b :: c :: bs =>
      letter (a.toNat / 4) :: letter (a.toNat % 4 * 16 + b.toNat / 16) ::
        letter (b.toNat % 16 * 4 + c.toNat / 64) :: letter (c.toNat % 64) :: encode bs

/-- Decoding from the position `quadPos` of a group, with the bits `left` still to put
out and `pads` padding bytes read. -/
def decodeFrom (quadPos left pads : ℕ) : List UInt8 → Option (List UInt8)
  | [] => if quadPos = 0 then some [] else none
  | c :: cs =>
      if c = pad then
        if quadPos < 2 then decodeFrom quadPos left pads cs
        else if quadPos + (pads + 1) < 4 then decodeFrom quadPos left (pads + 1) cs
        else some []
      else
        match value? c with
        | none => decodeFrom quadPos left pads cs
        | some v =>
            match quadPos with
            | 0 => decodeFrom 1 v 0 cs
            | 1 => (decodeFrom 2 (v % 16) 0 cs).map (UInt8.ofNat (left * 4 + v / 16) :: ·)
            | 2 => (decodeFrom 3 (v % 4) 0 cs).map (UInt8.ofNat (left * 16 + v / 4) :: ·)
            | _ => (decodeFrom 0 0 0 cs).map (UInt8.ofNat (left * 64 + v) :: ·)

def decode (bs : List UInt8) : Option (List UInt8) := decodeFrom 0 0 0 bs

/-! ## Letters -/

/-- The byte of an ASCII character. -/
def byte (c : Char) : UInt8 := c.val.toUInt8

theorem value?_byte_letter : ∀ n < 64, value? (byte (letter n)) = some n := by decide

theorem byte_letter_ne_pad : ∀ n < 64, byte (letter n) ≠ pad := by decide

theorem byte_pad : byte '=' = pad := rfl

theorem letter_isAlphanum : ∀ n < 64, (letter n).isAlphanum ∨ letter n = '+' ∨ letter n = '/' := by
  decide

/-- The characters of an encoded text. -/
def IsLetter (c : Char) : Prop := c.isAlphanum ∨ c = '+' ∨ c = '/' ∨ c = '='

instance : DecidablePred IsLetter := fun c =>
  inferInstanceAs (Decidable (c.isAlphanum ∨ c = '+' ∨ c = '/' ∨ c = '='))

theorem isLetter_letter {n : ℕ} (hn : n < 64) : IsLetter (letter n) := by
  rcases letter_isAlphanum n hn with h | h | h
  · exact .inl h
  · exact .inr (.inl h)
  · exact .inr (.inr (.inl h))

theorem isLetter_of_mem_encode {bs : List UInt8} {c : Char} (hc : c ∈ encode bs) : IsLetter c := by
  fun_induction encode bs with
  | case1 => simp at hc
  | case2 a =>
      have ha := a.toNat_lt
      simp only [List.mem_cons, List.not_mem_nil, or_false] at hc
      rcases hc with rfl | rfl | rfl | rfl
      · exact isLetter_letter (by omega)
      · exact isLetter_letter (by omega)
      · exact .inr (.inr (.inr rfl))
      · exact .inr (.inr (.inr rfl))
  | case3 a b =>
      have ha := a.toNat_lt
      have hb := b.toNat_lt
      simp only [List.mem_cons, List.not_mem_nil, or_false] at hc
      rcases hc with rfl | rfl | rfl | rfl
      · exact isLetter_letter (by omega)
      · exact isLetter_letter (by omega)
      · exact isLetter_letter (by omega)
      · exact .inr (.inr (.inr rfl))
  | case4 a b d bs ih =>
      have ha := a.toNat_lt
      have hb := b.toNat_lt
      have hd := d.toNat_lt
      simp only [List.mem_cons] at hc
      rcases hc with rfl | rfl | rfl | rfl | hc
      · exact isLetter_letter (by omega)
      · exact isLetter_letter (by omega)
      · exact isLetter_letter (by omega)
      · exact isLetter_letter (by omega)
      · exact ih hc

theorem IsLetter.val_le {c : Char} (h : IsLetter c) : c.val ≤ 0x7f := by
  rcases h with h | rfl | rfl | rfl
  · change ((decide (c.val ≥ 'A'.val ∧ c.val ≤ 'Z'.val) ||
      (c.val ≥ 'a'.val && c.val ≤ 'z'.val)) || (c.val ≥ '0'.val && c.val ≤ '9'.val)) = true at h
    simp only [Bool.or_eq_true, Bool.and_eq_true, decide_eq_true_eq, UInt32.le_iff_toNat_le,
      ge_iff_le] at h ⊢
    simp at h ⊢
    omega
  all_goals decide

theorem notMem_encode {c : Char} (h : ¬ IsLetter c) (bs : List UInt8) : c ∉ encode bs :=
  fun hc => h (isLetter_of_mem_encode hc)

/-! ## What is encoded is decoded -/

section RoundTrip

variable {n left pads : ℕ} {cs : List UInt8}

theorem decodeFrom_zero (hn : n < 64) :
    decodeFrom 0 left pads (byte (letter n) :: cs) = decodeFrom 1 n 0 cs := by
  simp [decodeFrom, byte_letter_ne_pad n hn, value?_byte_letter n hn]

theorem decodeFrom_one (hn : n < 64) :
    decodeFrom 1 left pads (byte (letter n) :: cs) =
      (decodeFrom 2 (n % 16) 0 cs).map (UInt8.ofNat (left * 4 + n / 16) :: ·) := by
  simp [decodeFrom, byte_letter_ne_pad n hn, value?_byte_letter n hn]

theorem decodeFrom_two (hn : n < 64) :
    decodeFrom 2 left pads (byte (letter n) :: cs) =
      (decodeFrom 3 (n % 4) 0 cs).map (UInt8.ofNat (left * 16 + n / 4) :: ·) := by
  simp [decodeFrom, byte_letter_ne_pad n hn, value?_byte_letter n hn]

theorem decodeFrom_three (hn : n < 64) :
    decodeFrom 3 left pads (byte (letter n) :: cs) =
      (decodeFrom 0 0 0 cs).map (UInt8.ofNat (left * 64 + n) :: ·) := by
  simp [decodeFrom, byte_letter_ne_pad n hn, value?_byte_letter n hn]

theorem decodeFrom_two_pad : decodeFrom 2 left 0 [pad, pad] = some [] := by
  simp [decodeFrom]

theorem decodeFrom_three_pad : decodeFrom 3 left 0 [pad] = some [] := by
  simp [decodeFrom]

/-- The two parts of a byte, put together again. -/
theorem ofNat_eq {a : UInt8} (h : n = a.toNat) : UInt8.ofNat n = a := by
  rw [h, UInt8.ofNat_toNat]

theorem decode_map_byte_encode (bs : List UInt8) : decode ((encode bs).map byte) = some bs := by
  unfold decode
  fun_induction encode bs with
  | case1 => rfl
  | case2 a =>
      have ha := a.toNat_lt
      simp only [List.map_cons, List.map_nil, byte_pad]
      rw [decodeFrom_zero (by omega), decodeFrom_one (by omega), decodeFrom_two_pad,
        ofNat_eq (a := a) (by omega)]
      rfl
  | case3 a b =>
      have ha := a.toNat_lt
      have hb := b.toNat_lt
      simp only [List.map_cons, List.map_nil, byte_pad]
      rw [decodeFrom_zero (by omega), decodeFrom_one (by omega), decodeFrom_two (by omega),
        decodeFrom_three_pad, ofNat_eq (a := a) (by omega), ofNat_eq (a := b) (by omega)]
      rfl
  | case4 a b c bs ih =>
      have ha := a.toNat_lt
      have hb := b.toNat_lt
      have hc := c.toNat_lt
      simp only [List.map_cons]
      rw [decodeFrom_zero (by omega), decodeFrom_one (by omega), decodeFrom_two (by omega),
        decodeFrom_three (by omega), ih, ofNat_eq (a := a) (by omega),
        ofNat_eq (a := b) (by omega), ofNat_eq (a := c) (by omega)]
      rfl

end RoundTrip

end Base64

end Fastrak
