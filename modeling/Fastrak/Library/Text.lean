import Mathlib.Data.List.Basic
import Mathlib.Data.List.DropRight

/-!
# Texts

A text is the list of its characters, and a byte string the list of its bytes.
`remove sub t` is `t` with every occurrence of `sub` taken out, from the left and
without overlaps, `afterLast c t` is what comes after the last `c`, and `strip t` is `t`
without the white space at its ends.
-/

namespace Fastrak

abbrev Text := List Char

namespace Text

def encodeUtf8 (t : Text) : List UInt8 := t.flatMap String.utf8EncodeChar

def decodeUtf8? (bs : List UInt8) : Option Text := bs.toByteArray.utf8Decode?.map Array.toList

theorem decodeUtf8?_encodeUtf8 (t : Text) : decodeUtf8? (encodeUtf8 t) = some t := by
  have h : (encodeUtf8 t).toByteArray.utf8Decode? = some t.toArray :=
    List.utf8Decode?_utf8Encode
  rw [decodeUtf8?, h]
  rfl

theorem encodeUtf8_of_ascii {t : Text} (h : ∀ c ∈ t, c.val ≤ 0x7f) :
    encodeUtf8 t = t.map (·.val.toUInt8) := by
  induction t with
  | nil => rfl
  | cons c t ih =>
      have hc : c.utf8Size = 1 := by
        have hle := h c List.mem_cons_self
        simp [Char.utf8Size, hle]
      have ht := ih fun d hd => h d (List.mem_cons_of_mem c hd)
      rw [encodeUtf8] at ht
      rw [encodeUtf8, List.flatMap_cons, String.utf8EncodeChar_eq_singleton hc, ht]
      rfl

/-- The first `k` characters are dropped, and `sub` is taken out of what follows. -/
def removeFrom (sub : Text) : ℕ → Text → Text
  | _, [] => []
  | k + 1, _ :: t => removeFrom sub k t
  | 0, c :: t =>
      if sub <+: c :: t then removeFrom sub (sub.length - 1) t else c :: removeFrom sub 0 t

/-- `t.replace(sub, "")`. -/
def remove (sub t : Text) : Text := removeFrom sub 0 t

variable {sub t : Text}

theorem removeFrom_append (s t : Text) : removeFrom sub s.length (s ++ t) = remove sub t := by
  induction s with
  | nil => rfl
  | cons c s ih => exact ih

/-- The occurrence at the front. -/
theorem remove_append (h : sub ≠ []) (t : Text) : remove sub (sub ++ t) = remove sub t := by
  obtain ⟨c, s, rfl⟩ := List.exists_cons_of_ne_nil h
  have hp : c :: s <+: c :: (s ++ t) := List.prefix_append (c :: s) t
  rw [remove, List.cons_append, removeFrom, if_pos hp]
  exact removeFrom_append s t

/-- A text that has no character of `sub` is left as it is. -/
theorem remove_of_notMem {c : Char} (hc : c ∈ sub) (ht : c ∉ t) : remove sub t = t := by
  unfold remove
  induction t with
  | nil => rfl
  | cons d t ih =>
      have hp : ¬ sub <+: d :: t := fun hp => ht (hp.subset hc)
      rw [removeFrom, if_neg hp, ih fun h => ht (List.mem_cons_of_mem d h)]

/-! ## Parts -/

theorem notMem_of_mem_splitOn {c : Char} {part : Text} (h : part ∈ t.splitOn c) : c ∉ part := by
  induction t generalizing part with
  | nil =>
      rw [List.splitOn_nil, List.mem_singleton] at h
      simp [h]
  | cons d t ih =>
      rw [List.splitOn_cons_eq_if_modifyHead] at h
      obtain ⟨first, parts, hparts⟩ := List.exists_cons_of_ne_nil (List.splitOn_ne_nil c t)
      rw [hparts] at h ih
      split at h
      · rcases List.mem_cons.mp h with rfl | h
        · exact List.not_mem_nil
        · exact ih h
      · next hd =>
          rcases List.mem_cons.mp h with rfl | h
          · rw [List.mem_cons, not_or]
            exact ⟨fun hc => hd (beq_iff_eq.mpr hc.symm), ih List.mem_cons_self⟩
          · exact ih (List.mem_cons_of_mem _ h)

theorem mem_of_mem_splitOn {c d : Char} {part : Text} (h : part ∈ t.splitOn c) (hd : d ∈ part) :
    d ∈ t := by
  induction t generalizing part with
  | nil =>
      rw [List.splitOn_nil, List.mem_singleton] at h
      exact absurd (h ▸ hd) List.not_mem_nil
  | cons e t ih =>
      rw [List.splitOn_cons_eq_if_modifyHead] at h
      obtain ⟨first, parts, hparts⟩ := List.exists_cons_of_ne_nil (List.splitOn_ne_nil c t)
      rw [hparts] at h ih
      split at h
      · rcases List.mem_cons.mp h with rfl | h
        · exact absurd hd List.not_mem_nil
        · exact List.mem_cons_of_mem e (ih h hd)
      · rcases List.mem_cons.mp h with rfl | h
        · rcases List.mem_cons.mp hd with rfl | hd
          · exact List.mem_cons_self
          · exact List.mem_cons_of_mem e (ih List.mem_cons_self hd)
        · exact List.mem_cons_of_mem e (ih (List.mem_cons_of_mem _ h) hd)

/-- `t.split(c)[-1]` -/
def afterLast (c : Char) (t : Text) : Text := (t.splitOn c).getLast (List.splitOn_ne_nil c t)

theorem notMem_afterLast (c : Char) (t : Text) : c ∉ afterLast c t :=
  notMem_of_mem_splitOn (List.getLast_mem _)

theorem afterLast_of_notMem {c : Char} (h : c ∉ t) : afterLast c t = t := by
  simp [afterLast, List.splitOn_eq_singleton h]

/-! ## White space -/

/-- `c.isspace()` -/
def isSpace (c : Char) : Bool :=
  c.toNat ∈ [0x09, 0x0a, 0x0b, 0x0c, 0x0d, 0x1c, 0x1d, 0x1e, 0x1f, 0x20, 0x85, 0xa0, 0x1680,
    0x2000, 0x2001, 0x2002, 0x2003, 0x2004, 0x2005, 0x2006, 0x2007, 0x2008, 0x2009, 0x200a,
    0x2028, 0x2029, 0x202f, 0x205f, 0x3000]

/-- `t.strip()` -/
def strip (t : Text) : Text := (t.dropWhile isSpace).rdropWhile isSpace

theorem mem_of_mem_strip {c : Char} (h : c ∈ strip t) : c ∈ t :=
  (List.dropWhile_suffix isSpace).subset ((List.rdropWhile_prefix _ _).subset h)

/-- Nothing is taken off the front of a text that starts with a letter. -/
theorem strip_cons {c : Char} (hc : ¬ isSpace c) (t : Text) :
    strip (c :: t) = (c :: t).rdropWhile isSpace := by
  rw [strip, List.dropWhile_cons_of_neg hc]

theorem strip_cons_ne_nil {c : Char} (hc : ¬ isSpace c) (t : Text) : strip (c :: t) ≠ [] := by
  rw [strip_cons hc, ne_eq, List.rdropWhile_eq_nil_iff]
  exact fun h => hc (h c List.mem_cons_self)

theorem prefix_rdropWhile {d : Char} (hd : ¬ isSpace d) (front t : Text) :
    front ++ [d] <+: (front ++ [d] ++ t).rdropWhile isSpace := by
  induction t using List.reverseRecOn with
  | nil =>
      have hkept : (front ++ [d]).rdropWhile isSpace = front ++ [d] :=
        List.rdropWhile_concat_neg _ _ _ hd
      exact ⟨[], by rw [List.append_nil, hkept]⟩
  | append_singleton t e ih =>
      rw [← List.append_assoc]
      by_cases he : isSpace e
      · rw [List.rdropWhile_concat_pos _ _ _ he]
        exact ih
      · rw [List.rdropWhile_concat_neg _ _ _ he, List.append_assoc]
        exact List.prefix_append _ _

/-- A word in front of a text is still in front of it when the text is stripped. -/
theorem prefix_strip {c d : Char} (hc : ¬ isSpace c) (hd : ¬ isSpace d) (front t : Text) :
    c :: (front ++ [d]) <+: strip (c :: (front ++ [d] ++ t)) := by
  rw [strip_cons hc]
  exact prefix_rdropWhile hd (c :: front) t

/-- Such a text is longer than every text it ends with, and stripping does not help. -/
theorem strip_cons_append_ne {c : Char} (hc : ¬ isSpace c) (front t : Text) :
    strip (c :: (front ++ t)) ≠ t := by
  intro h
  have hne : t ≠ [] := fun hnil => strip_cons_ne_nil hc (front ++ t) (h.trans hnil)
  rw [strip_cons hc] at h
  -- what is left ends as `t` does, so that there was nothing to strip
  have hlast : ∀ hl : t ≠ [], ¬ isSpace (t.getLast hl) := by
    rw [← List.rdropWhile_eq_self_iff, ← h]
    exact List.rdropWhile_idempotent _ _
  have hself : (c :: (front ++ t)).rdropWhile isSpace = c :: (front ++ t) := by
    rw [List.rdropWhile_eq_self_iff]
    intro hl
    rw [List.getLast_cons (by simp [hne]), List.getLast_append_right hne]
    exact hlast hne
  have hlength := congrArg List.length (hself.symm.trans h)
  rw [List.length_cons, List.length_append] at hlength
  omega

end Text

end Fastrak
