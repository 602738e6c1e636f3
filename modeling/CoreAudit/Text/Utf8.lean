import CoreAudit.Text.Basic

/-!
# UTF-8

Files hold bytes. A text is written as UTF-8; bytes are read either leniently, with one
replacement character for each maximal ill-formed part, or strictly, with the first ill-formed
part as the error. Both readings come from one division of the bytes into pieces.

The lenient reading is that of answers, benchmarks and what tools print, the strict one that of
policy tables.

* `pieces_width`: the pieces cover the bytes, no byte twice.
* **`decodeStrict_eq_ok_iff`**: strict reading succeeds exactly where no piece is ill-formed.
* `decode_of_decodeStrict`: where strict reading succeeds, the lenient one agrees.
-/

namespace CoreAudit.Text.Utf8

/-- The bytes of one code point. -/
def encodeChar (c : Char) : List UInt8 :=
  let n := c.toNat
  if n < 0x80 then [n.toUInt8]
  else if n < 0x800 then [(0xC0 + n / 64).toUInt8, (0x80 + n % 64).toUInt8]
  else if n < 0x10000 then
    [(0xE0 + n / 4096).toUInt8, (0x80 + n / 64 % 64).toUInt8, (0x80 + n % 64).toUInt8]
  else
    [(0xF0 + n / 262144).toUInt8, (0x80 + n / 4096 % 64).toUInt8, (0x80 + n / 64 % 64).toUInt8,
     (0x80 + n % 64).toUInt8]

/-- The bytes of a text. -/
def encode (t : Text) : List UInt8 := t.flatMap encodeChar

/-! ## Pieces -/

/-- What is wrong with an ill-formed part. -/
inductive Flaw where
  /-- No code point starts with this byte. -/
  | start
  /-- The byte after the part does not continue it. -/
  | continuation
  /-- The bytes end in the middle of a code point. -/
  | ending
  deriving Repr, DecidableEq

/-- One code point, or one maximal ill-formed part; `extra` counts the bytes after the first. -/
inductive Piece where
  | scalar (c : Char) (extra : Nat)
  | illFormed (flaw : Flaw) (extra : Nat)
  deriving Repr, DecidableEq

/-- The bytes of a piece after its first. -/
def Piece.extra : Piece → Nat
  | .scalar _ n => n
  | .illFormed _ n => n

/-- The number of bytes of a piece. -/
def Piece.width (p : Piece) : Nat := p.extra + 1

/-- The ranges of the bytes that must follow a first byte, if a code point starts with it. The
second byte is restricted where a longer form, a surrogate or a value above the last code point
would be written. -/
def followers (b : UInt8) : Option (List (UInt8 × UInt8)) :=
  if b < 0x80 then some []
  else if b < 0xC2 then none
  else if b < 0xE0 then some [(0x80, 0xBF)]
  else if b = 0xE0 then some [(0xA0, 0xBF), (0x80, 0xBF)]
  else if b = 0xED then some [(0x80, 0x9F), (0x80, 0xBF)]
  else if b < 0xF0 then some [(0x80, 0xBF), (0x80, 0xBF)]
  else if b = 0xF0 then some [(0x90, 0xBF), (0x80, 0xBF), (0x80, 0xBF)]
  else if b < 0xF4 then some [(0x80, 0xBF), (0x80, 0xBF), (0x80, 0xBF)]
  else if b = 0xF4 then some [(0x80, 0x8F), (0x80, 0xBF), (0x80, 0xBF)]
  else none

/-- The longest run of bytes that lie in the ranges one after the other. -/
def following : List (UInt8 × UInt8) → List UInt8 → List UInt8
  | (lo, hi) :: rs, b :: bs => if lo ≤ b ∧ b ≤ hi then b :: following rs bs else []
  | _, _ => []

/-- The bits that a first byte contributes, by the number of bytes that follow it. -/
def leadBits (b : UInt8) : Nat → Nat
  | 0 => b.toNat
  | 1 => b.toNat % 32
  | 2 => b.toNat % 16
  | _ => b.toNat % 8

/-- The piece that starts with byte `b`, before the bytes `bs`. -/
def piece (b : UInt8) (bs : List UInt8) : Piece :=
  match followers b with
  | none => .illFormed .start 0
  | some ranges =>
    let run := following ranges bs
    if run.length = ranges.length then
      .scalar (Char.ofNat (run.foldl (fun n c => n * 64 + c.toNat % 64) (leadBits b run.length)))
        run.length
    else .illFormed (if run.length = bs.length then .ending else .continuation) run.length

/-- The bytes divided into code points and maximal ill-formed parts. -/
def pieces : List UInt8 → List Piece
  | [] => []
  | b :: bs => piece b bs :: pieces (bs.drop (piece b bs).extra)
  termination_by bs => bs.length
  decreasing_by simp only [List.length_drop, List.length_cons]; omega

theorem length_following_le (rs : List (UInt8 × UInt8)) (bs : List UInt8) :
    (following rs bs).length ≤ bs.length := by
  fun_induction following rs bs <;> simp_all

theorem extra_piece_le (b : UInt8) (bs : List UInt8) : (piece b bs).extra ≤ bs.length := by
  unfold piece
  split
  · exact Nat.zero_le _
  · dsimp only
    split <;> exact length_following_le _ _

/-- The pieces cover the bytes, no byte twice. -/
theorem pieces_width (bs : List UInt8) :
    (pieces bs).foldr (fun p n => p.width + n) 0 = bs.length := by
  fun_induction pieces bs with
  | case1 => rfl
  | case2 b bs ih =>
    have := extra_piece_le b bs
    rw [List.foldr_cons, ih, Piece.width, List.length_drop, List.length_cons]
    omega

/-! ## Reading -/

/-- The character that stands for a piece: itself, or the replacement character. -/
def Piece.shown : Piece → Char
  | .scalar c _ => c
  | .illFormed _ _ => '\uFFFD'

/-- Lenient reading: one replacement character for each maximal ill-formed part. -/
def decode (bs : List UInt8) : Text := (pieces bs).map Piece.shown

/-- The first ill-formed part of a byte sequence: where it starts, its bytes, and its flaw. -/
structure Breach where
  position : Nat
  first : UInt8
  width : Nat
  flaw : Flaw
  deriving Repr, DecidableEq

/-- Strict reading, of bytes that stand `position` bytes after the start. -/
def decodeFrom (position : Nat) : List UInt8 → Except Breach Text
  | [] => .ok []
  | b :: bs =>
    match piece b bs with
    | .scalar c n => (decodeFrom (position + n + 1) (bs.drop n)).map (c :: ·)
    | .illFormed flaw n => .error ⟨position, b, n + 1, flaw⟩
  termination_by bs => bs.length
  decreasing_by simp only [List.length_drop, List.length_cons]; omega

/-- Strict reading: the first ill-formed part is an error. -/
def decodeStrict (bs : List UInt8) : Except Breach Text := decodeFrom 0 bs

/-- The piece is a code point. -/
def Piece.isScalar : Piece → Bool
  | .scalar _ _ => true
  | .illFormed _ _ => false

theorem decodeFrom_eq_ok_iff (position : Nat) (bs : List UInt8) (t : Text) :
    decodeFrom position bs = .ok t ↔ (pieces bs).all Piece.isScalar = true ∧ decode bs = t := by
  fun_induction pieces bs generalizing position t with
  | case1 => simp [decodeFrom, decode, pieces]
  | case2 b bs ih =>
    unfold decode at ih
    rw [decodeFrom, decode, pieces]
    cases hp : piece b bs with
    | scalar c n =>
      rw [hp] at ih
      simp only [Piece.extra] at ih
      cases hd : decodeFrom (position + n + 1) (bs.drop n) with
      | error e =>
        have := ih (position + n + 1) ((pieces (bs.drop n)).map Piece.shown)
        simp only [hd, reduceCtorEq, and_true, false_iff] at this
        simp [hd, Except.map, Piece.extra, Piece.isScalar, this]
      | ok u =>
        have := (ih (position + n + 1) u).mp hd
        simp [hd, Except.map, Piece.extra, Piece.isScalar, this.1, this.2, Piece.shown]
    | illFormed flaw n => simp [Piece.isScalar]

/-- Strict reading succeeds exactly where no piece is ill-formed, and then gives what lenient
reading gives. -/
theorem decodeStrict_eq_ok_iff (bs : List UInt8) (t : Text) :
    decodeStrict bs = .ok t ↔ (pieces bs).all Piece.isScalar = true ∧ decode bs = t :=
  decodeFrom_eq_ok_iff 0 bs t

/-- Where strict reading succeeds, the lenient one agrees. -/
theorem decode_of_decodeStrict {bs : List UInt8} {t : Text} (h : decodeStrict bs = .ok t) :
    decode bs = t :=
  ((decodeStrict_eq_ok_iff bs t).mp h).2

end CoreAudit.Text.Utf8
