import CoreAudit.Text.Utf8

/-!
# Texts written as UTF-8 and read again

Lenient reading of bytes puts replacement characters where the bytes are ill-formed. The bytes of
a text are not: the bytes of each character are one piece, and the piece is that character.

Headlines:
* **`piece_encodeChar`**: the bytes of a character are cut off again as that character.
* **`decode_encode`**: reading gives back the text that was written.
-/

namespace CoreAudit.Text.Utf8

/-- The bytes lie in the ranges, one after the other, and no range is left over. -/
inductive Within : List (UInt8 × UInt8) → List UInt8 → Prop
  | nil : Within [] []
  | cons {lo hi b : UInt8} {ranges : List (UInt8 × UInt8)} {run : List UInt8}
      (above : lo ≤ b) (below : b ≤ hi) (rest : Within ranges run) :
      Within ((lo, hi) :: ranges) (b :: run)

/-- The number that a first byte and the bytes after it stand for. -/
def value (b : UInt8) (run : List UInt8) : Nat :=
  run.foldl (fun n c => n * 64 + c.toNat % 64) (leadBits b run.length)

theorem Within.length_eq {ranges : List (UInt8 × UInt8)} {run : List UInt8}
    (h : Within ranges run) : run.length = ranges.length := by
  induction h with
  | nil => rfl
  | cons _ _ _ ih => rw [List.length_cons, List.length_cons, ih]

theorem following_append {ranges : List (UInt8 × UInt8)} {run : List UInt8}
    (h : Within ranges run) (rest : List UInt8) : following ranges (run ++ rest) = run := by
  induction h with
  | nil => exact following.eq_2 [] _ (by rintro _ _ _ _ _ h; cases h)
  | cons above below _ ih => rw [List.cons_append, following, if_pos ⟨above, below⟩, ih]

/-- A first byte and the bytes that may follow it are one piece. -/
theorem piece_of_within {b : UInt8} {ranges : List (UInt8 × UInt8)} {run : List UInt8}
    (hb : followers b = some ranges) (hrun : Within ranges run) (rest : List UInt8) :
    piece b (run ++ rest) = .scalar (Char.ofNat (value b run)) run.length := by
  unfold piece
  rw [hb]
  dsimp only
  rw [following_append hrun rest, if_pos hrun.length_eq]
  rfl

theorem toNat_byte {n : Nat} (h : n < 256) : n.toUInt8.toNat = n := by
  rw [Nat.toUInt8, UInt8.toNat_ofNat', Nat.mod_eq_of_lt h]

/-- A byte that continues a code point, with the six bits that it carries. -/
theorem within_tail {bits : Nat} (h : bits < 64) {ranges : List (UInt8 × UInt8)} {run : List UInt8}
    (hrun : Within ranges run) :
    Within ((0x80, 0xBF) :: ranges) ((0x80 + bits).toUInt8 :: run) := by
  have hbyte : (0x80 + bits).toUInt8.toNat = 0x80 + bits := toNat_byte (by omega)
  refine .cons ?_ ?_ hrun <;> rw [UInt8.le_iff_toNat_le, hbyte]
  · exact Nat.le_add_right _ _
  · change 0x80 + bits ≤ 0xBF
    omega

/-! ## First bytes -/

theorem followers_one : ∀ n < 0x80, followers n.toUInt8 = some [] := by decide

theorem followers_two :
    ∀ k < 0x20, 2 ≤ k → followers (0xC0 + k).toUInt8 = some [(0x80, 0xBF)] := by
  decide

theorem followers_three : ∀ k < 0x10, followers (0xE0 + k).toUInt8 =
    some [(if k = 0 then 0xA0 else 0x80, if k = 0xD then 0x9F else 0xBF), (0x80, 0xBF)] := by
  decide

/-- The first of three bytes that follow keeps out the longer forms and what is above the last code
point. -/
theorem followers_four : ∀ k < 5, followers (0xF0 + k).toUInt8 =
    some [(if k = 0 then 0x90 else 0x80, if k = 4 then 0x8F else 0xBF), (0x80, 0xBF),
      (0x80, 0xBF)] := by
  decide

/-! ## Characters -/

theorem toNat_char (c : Char) : c.toNat < 0xD800 ∨ 0xDFFF < c.toNat ∧ c.toNat < 0x110000 := c.valid

/-- **The bytes of a character** are a first byte and bytes that may follow it, and they stand for
that character. -/
theorem exists_encodeChar (c : Char) : ∃ b run ranges, encodeChar c = b :: run ∧
    followers b = some ranges ∧ Within ranges run ∧ value b run = c.toNat := by
  have hc := toNat_char c
  unfold encodeChar
  dsimp only
  generalize c.toNat = n at hc ⊢
  by_cases h₁ : n < 0x80
  · refine ⟨_, _, _, by rw [if_pos h₁], followers_one n h₁, .nil, ?_⟩
    exact toNat_byte (by omega)
  rw [if_neg h₁]
  by_cases h₂ : n < 0x800
  · refine ⟨_, _, _, by rw [if_pos h₂], followers_two (n / 64) (by omega) (by omega),
      within_tail (by omega) .nil, ?_⟩
    simp only [value, leadBits, List.foldl_cons, List.foldl_nil, List.length_cons, List.length_nil]
    rw [toNat_byte (by omega), toNat_byte (by omega)]
    omega
  rw [if_neg h₂]
  by_cases h₃ : n < 0x10000
  · refine ⟨_, _, _, by rw [if_pos h₃], followers_three (n / 4096) (by omega),
      .cons ?_ ?_ (within_tail (by omega) .nil), ?_⟩
    · rw [UInt8.le_iff_toNat_le, toNat_byte (by omega)]
      split
      · change 0xA0 ≤ _
        omega
      · exact Nat.le_add_right _ _
    · rw [UInt8.le_iff_toNat_le, toNat_byte (by omega)]
      split
      · change _ ≤ 0x9F
        omega
      · change _ ≤ 0xBF
        omega
    · simp only [value, leadBits, List.foldl_cons, List.foldl_nil, List.length_cons,
        List.length_nil]
      rw [toNat_byte (by omega), toNat_byte (by omega), toNat_byte (by omega)]
      omega
  rw [if_neg h₃]
  refine ⟨_, _, _, rfl, followers_four (n / 262144) (by omega),
    .cons ?_ ?_ (within_tail (by omega) (within_tail (by omega) .nil)), ?_⟩
  · rw [UInt8.le_iff_toNat_le, toNat_byte (by omega)]
    split
    · change 0x90 ≤ _
      omega
    · exact Nat.le_add_right _ _
  · rw [UInt8.le_iff_toNat_le, toNat_byte (by omega)]
    split
    · change _ ≤ 0x8F
      omega
    · change _ ≤ 0xBF
      omega
  · simp only [value, leadBits, List.foldl_cons, List.foldl_nil, List.length_cons, List.length_nil]
    rw [toNat_byte (by omega), toNat_byte (by omega), toNat_byte (by omega), toNat_byte (by omega)]
    omega

/-- **The bytes of a character are cut off again as that character.** -/
theorem piece_encodeChar (c : Char) : ∃ b run, encodeChar c = b :: run ∧
    ∀ rest, piece b (run ++ rest) = .scalar c run.length := by
  obtain ⟨b, run, ranges, hencode, hb, hrun, hvalue⟩ := exists_encodeChar c
  refine ⟨b, run, hencode, fun rest => ?_⟩
  rw [piece_of_within hb hrun rest, hvalue, Char.ofNat_toNat]

/-- **Reading gives back the text that was written.** -/
theorem decode_encode (t : Text) : decode (encode t) = t := by
  induction t with
  | nil => simp [encode, decode, pieces]
  | cons c t ih =>
    obtain ⟨b, run, hencode, hpiece⟩ := piece_encodeChar c
    have hbytes : encode (c :: t) = b :: (run ++ encode t) := by
      rw [encode, List.flatMap_cons, hencode]
      rfl
    unfold decode at ih ⊢
    rw [hbytes, pieces, List.map_cons, hpiece, Piece.shown, Piece.extra, List.drop_left, ih]

end CoreAudit.Text.Utf8
