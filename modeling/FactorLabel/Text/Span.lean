import FactorLabel.Number.Radix

/-!
# Marks and places in a text

A text is read from the front. A mark may stand there or may be missing, and what has been taken off
tells where the rest begins.

Places are counted in bytes of the UTF-8 encoding, so a place can be handed to a host that
keeps the text as bytes. A span is half open: it holds its start and not its stop.
-/

namespace FactorLabel.Text

/-- Takes `c` off the front, and tells whether it was there. -/
def takeMark (c : Char) : List Char → Bool × List Char
  | [] => (false, [])
  | d :: rest => if d = c then (true, rest) else (false, d :: rest)

/-! ## Places -/

/-- The number of bytes that encode `s`. -/
def byteLength : List Char → Nat
  | [] => 0
  | c :: s => c.utf8Size + byteLength s

@[simp] theorem byteLength_nil : byteLength [] = 0 := rfl

@[simp] theorem byteLength_cons (c : Char) (s : List Char) :
    byteLength (c :: s) = c.utf8Size + byteLength s := rfl

@[simp] theorem byteLength_append (s t : List Char) :
    byteLength (s ++ t) = byteLength s + byteLength t := by
  induction s with
  | nil => simp
  | cons c s ih => simp [ih, Nat.add_assoc]

theorem byteLength_pos {s : List Char} (h : s ≠ []) : 0 < byteLength s := by
  cases s with
  | nil => exact absurd rfl h
  | cons c s =>
      have hc := c.utf8Size_pos
      rw [byteLength_cons]
      omega

theorem byteLength_eq (s : List Char) : byteLength s = (String.ofList s).utf8ByteSize := by
  induction s with
  | nil => rfl
  | cons c s ih =>
      rw [byteLength_cons, ih, String.ofList_cons, String.utf8ByteSize_append,
        String.utf8ByteSize_singleton]

/-- The bytes from `start` up to, and without, `stop`. -/
structure Span where
  start : Nat
  stop : Nat
  deriving DecidableEq, Repr

namespace Span

/-- The span `n` bytes further on. -/
def shift (s : Span) (n : Nat) : Span := ⟨s.start + n, s.stop + n⟩

/-- The bytes of `text` when it stands at the place `start`. -/
def of (start : Nat) (text : List Char) : Span := ⟨start, start + byteLength text⟩

/-- The start and the stop as a user sees them. -/
def text (s : Span) : List Char :=
  Number.decimalText s.start ++ '-' :: Number.decimalText s.stop

end Span

end FactorLabel.Text
