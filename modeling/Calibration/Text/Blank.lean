/-! # Whitespace and blanks

Names end at any whitespace, but only spaces and tabs stand between the fields of a line.
-/
namespace Calibration.Text

/-- The ranges of code points that have the Unicode property White_Space. -/
def whitespaceRanges : List (Nat × Nat) :=
  [(0x09, 0x0d), (0x20, 0x20), (0x85, 0x85), (0xa0, 0xa0), (0x1680, 0x1680), (0x2000, 0x200a),
    (0x2028, 0x2029), (0x202f, 0x202f), (0x205f, 0x205f), (0x3000, 0x3000)]

def isWhitespace (c : Char) : Bool :=
  whitespaceRanges.any fun range => decide (range.1 ≤ c.toNat ∧ c.toNat ≤ range.2)

def isBlank (c : Char) : Bool := c = ' ' || c = '\t'

theorem isWhitespace_of_isBlank {c : Char} (h : isBlank c = true) : isWhitespace c = true := by
  simp only [isBlank, Bool.or_eq_true, decide_eq_true_eq] at h
  rcases h with rfl | rfl <;> decide

end Calibration.Text
