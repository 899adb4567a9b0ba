import Mathlib.Algebra.Group.Nat.Defs
import Mathlib.Tactic.Lemma
import Mathlib.Tactic.SplitIfs

/-!
# The order of texts and the order of their bytes

Texts are ordered by their characters, and their UTF-8 encodings byte by byte are in the same order
(`Text.bytes_lt_of_lt`). The encoding of a character has a first byte and then up to three bytes of
six bits each. A later character has more bytes and a greater first byte, or as many bytes, the
first of which to differ is greater.
-/

namespace SchemaQuery

namespace Text

/-- The bytes of a text in UTF-8. -/
def bytes (s : String) : List UInt8 := s.toUTF8.data.toList

/-! ### Characters -/

/-- The bytes come before others, whatever follows either. -/
def Precedes (as bs : List UInt8) : Prop := ∀ xs ys, as ++ xs < bs ++ ys

variable {as bs : List UInt8} {m n k : Nat}

lemma precedes_cons_of_lt {a b : UInt8} (h : a < b) : Precedes (a :: as) (b :: bs) :=
  fun _ _ => List.cons_lt_cons_iff.mpr (.inl h)

lemma Precedes.append_left (h : Precedes as bs) (cs : List UInt8) :
    Precedes (cs ++ as) (cs ++ bs) := by
  intro xs ys
  rw [List.append_assoc, List.append_assoc]
  exact List.append_left_lt (h xs ys)

lemma Precedes.append_right (h : Precedes as bs) (cs ds : List UInt8) :
    Precedes (as ++ cs) (bs ++ ds) := by
  intro xs ys
  rw [List.append_assoc, List.append_assoc]
  exact h _ _

lemma ofNat_lt_ofNat (h : m < n) (hn : n < 256) : UInt8.ofNat m < UInt8.ofNat n := by
  rw [UInt8.lt_iff_toNat_lt, UInt8.toNat_ofNat', UInt8.toNat_ofNat']
  omega

/-- The last `k` bytes of an encoding, which hold six bits each. -/
def trail : Nat → Nat → List UInt8
  | 0, _ => []
  | k + 1, n => trail k (n / 64) ++ [UInt8.ofNat (n % 64 + 128)]

/-- What is added to the highest bits in the first byte, by the number of bytes after it. -/
def lead : Nat → Nat
  | 0 => 0
  | 1 => 0xc0
  | 2 => 0xe0
  | _ => 0xf0

/-- The number of bytes after the first one. -/
def rank (n : Nat) : Nat :=
  if n ≤ 0x7f then 0 else if n ≤ 0x7ff then 1 else if n ≤ 0xffff then 2 else 3

lemma trail_precedes (h : m < n) (hhigh : m / 64 ^ k = n / 64 ^ k) :
    Precedes (trail k m) (trail k n) := by
  induction k generalizing m n with
  | zero =>
    rw [Nat.pow_zero, Nat.div_one, Nat.div_one] at hhigh
    omega
  | succ k ih =>
    rw [Nat.pow_succ', ← Nat.div_div_eq_div_mul, ← Nat.div_div_eq_div_mul] at hhigh
    rcases Nat.lt_or_eq_of_le (Nat.div_le_div_right (c := 64) (Nat.le_of_lt h)) with hlt | heq
    · exact (ih hlt hhigh).append_right _ _
    · rw [trail, trail, heq]
      exact (precedes_cons_of_lt (ofNat_lt_ofNat (by omega) (by omega))).append_left _

lemma char_lt (c : Char) : c.val.toNat < 0x110000 := by
  have hvalid := c.valid
  simp only [UInt32.isValidChar, Nat.isValidChar] at hvalid
  omega

lemma utf8EncodeChar_eq (c : Char) : String.utf8EncodeChar c
    = UInt8.ofNat (c.val.toNat / 64 ^ rank c.val.toNat + lead (rank c.val.toNat))
      :: trail (rank c.val.toNat) c.val.toNat := by
  have hc := char_lt c
  -- the first byte has room for the highest bits
  simp only [String.utf8EncodeChar, rank]
  split_ifs with h₀ h₁ h₂
  · simp only [trail, lead, Nat.pow_zero, Nat.div_one, Nat.add_zero]
  · rw [show c.val.toNat / 64 % 0x20 = c.val.toNat / 64 by omega]
    simp only [trail, lead, Nat.reducePow, List.nil_append]
  · rw [show c.val.toNat / 4096 % 0x10 = c.val.toNat / 4096 by omega]
    simp only [trail, lead, Nat.reducePow, List.nil_append, List.cons_append]
  · rw [show c.val.toNat / 262144 % 0x08 = c.val.toNat / 262144 by omega]
    simp only [trail, lead, Nat.reducePow, Nat.div_div_eq_div_mul, Nat.reduceMul, List.nil_append,
      List.cons_append]

lemma first_lt (h : m < n) (hn : n < 0x110000)
    (hne : rank m = rank n → m / 64 ^ rank m ≠ n / 64 ^ rank n) :
    m / 64 ^ rank m + lead (rank m) < n / 64 ^ rank n + lead (rank n) ∧
      n / 64 ^ rank n + lead (rank n) < 256 := by
  unfold rank at hne ⊢
  split_ifs at hne ⊢ <;> simp [lead] at hne ⊢ <;> omega

/-- A later character has a greater first byte, or the same highest bits and later bytes for the
others. -/
lemma utf8EncodeChar_precedes {c d : Char} (h : c < d) :
    Precedes (String.utf8EncodeChar c) (String.utf8EncodeChar d) := by
  have hcd : c.val.toNat < d.val.toNat := h
  have hd := char_lt d
  rw [utf8EncodeChar_eq, utf8EncodeChar_eq]
  generalize c.val.toNat = m at hcd
  generalize d.val.toNat = n at hcd hd
  by_cases heq : rank m = rank n ∧ m / 64 ^ rank m = n / 64 ^ rank n
  · obtain ⟨hrank, hhigh⟩ := heq
    rw [← hrank] at hhigh ⊢
    rw [← hhigh]
    exact (trail_precedes hcd hhigh).append_left [_]
  · obtain ⟨hlt, hbyte⟩ := first_lt hcd hd fun hrank hhigh => heq ⟨hrank, hhigh⟩
    exact precedes_cons_of_lt (ofNat_lt_ofNat hlt hbyte)

/-! ### Texts -/

lemma bytes_eq (s : String) : bytes s = s.toList.flatMap String.utf8EncodeChar := by
  rw [bytes, String.toUTF8_eq_toByteArray, ← String.utf8Encode_toList, List.utf8Encode,
    List.toList_data_toByteArray]

lemma flatMap_utf8EncodeChar_lt {cs ds : List Char} (h : cs < ds) :
    cs.flatMap String.utf8EncodeChar < ds.flatMap String.utf8EncodeChar := by
  induction h with
  | nil =>
    rw [List.flatMap_nil, List.flatMap_cons, utf8EncodeChar_eq, List.cons_append]
    exact List.nil_lt_cons _ _
  | rel h => exact utf8EncodeChar_precedes h _ _
  | cons h ih => exact List.append_left_lt ih

/-- The bytes of texts are in the order of the texts. -/
lemma bytes_lt_of_lt {s t : String} (h : s < t) : bytes s < bytes t := by
  rw [bytes_eq, bytes_eq]
  exact flatMap_utf8EncodeChar_lt h

end Text

end SchemaQuery
