/-! # Text without control sequences

Reports quote names and lines as they were given, so they may carry control characters and the control
sequences by which a terminal is steered. Where no terminal reads them, neither is shown. A sequence
begins with an escape character, and what comes next decides how far it reaches. Main statement:
text without control characters is shown as it is.
-/
namespace Calibration.Text

/-- What has been read of a control sequence. -/
inductive Sequence where
  /-- The escape character alone. -/
  | escape
  /-- An escape with characters before its last. -/
  | escapeInner
  /-- A bracketed sequence, such as one for a colour. -/
  | bracketed
  /-- The head of a device control string; its parameters come before its inner characters. -/
  | deviceEntry
  | deviceParams
  | deviceInner
  /-- A string that no other character ends than the octet of its terminator. -/
  | string
  /-- An operating system command, which a bell ends. -/
  | command
  deriving DecidableEq, Repr

def isWithin (low high : Char) (c : Char) : Bool := decide (low ≤ c ∧ c ≤ high)

def isControl (c : Char) : Bool := decide (c < ' ' ∨ c = '\x7f')

def isSpacing (c : Char) : Bool := c = '\t' || c = '\n' || c = '\x0c' || c = '\r'

def isShown (c : Char) : Bool := isSpacing c || !isControl c

/-- A string is read octet by octet, so the octet of its terminator ends it within a character too. -/
def holdsTerminator (c : Char) : Bool := (String.utf8EncodeChar c).contains 0x9c

namespace Sequence

/-- What a character makes of an escape; `none` ends the sequence. -/
def introduced : Char → Option Sequence
  | '[' => some .bracketed
  | ']' => some .command
  | 'P' => some .deviceEntry
  | 'X' | '^' | '_' => some .string
  | c =>
    if isWithin ' ' '/' c then some .escapeInner
    else if isWithin '0' '~' c then none
    else some .escape

def next (s : Sequence) (c : Char) : Option Sequence :=
  match s with
  | .escape => introduced c
  | .escapeInner => if isWithin '0' '~' c then none else some .escapeInner
  | .bracketed => if isWithin '@' '~' c then none else some .bracketed
  | .deviceEntry =>
    if isWithin ' ' '/' c then some .deviceInner
    else if isWithin '0' '?' c then some .deviceParams
    else if isWithin '@' '~' c then some .string
    else some .deviceEntry
  | .deviceParams =>
    if isWithin ' ' '/' c then some .deviceInner
    else if isWithin '<' '~' c then some .string
    else some .deviceParams
  | .deviceInner => if isWithin '0' '~' c then some .string else some .deviceInner
  | .string => if holdsTerminator c then none else some .string
  | .command => if c = '\x07' then none else some .command

def showsSpacing : Sequence → Bool
  | .escape | .escapeInner | .bracketed => true
  | _ => false

end Sequence

inductive Scan where
  | text
  | inside (s : Sequence)
  /-- Spacing within a sequence begins a run of text. The next control character takes the sequence up
  again, while a character beyond ASCII ends it. -/
  | suspended (s : Sequence)
  deriving DecidableEq, Repr

namespace Scan

/-- The scan after a character, and whether that is shown. Escape begins a sequence anywhere, and the
two characters that cancel one do so anywhere. -/
def step (scan : Scan) (c : Char) : Scan × Bool :=
  if c = '\x1b' then (.inside .escape, false)
  else if c = '\x18' ∨ c = '\x1a' then (.text, false)
  else match scan with
    | .text => (.text, isShown c)
    | .suspended s =>
      if !isShown c then (.inside s, false)
      else (if c ≤ '\x7f' then .suspended s else .text, true)
    | .inside s =>
      if s.showsSpacing && isSpacing c then (.suspended s, true)
      else match s.next c with
        | some s => (.inside s, false)
        | none => (.text, false)

def shown (scan : Scan) : List Char → List Char
  | [] => []
  | c :: rest =>
    let (next, isShown) := scan.step c
    if isShown then c :: next.shown rest else next.shown rest

theorem shown_text {cs : List Char} (h : ∀ c ∈ cs, isControl c = false) : text.shown cs = cs := by
  induction cs with
  | nil => rfl
  | cons c rest ih =>
    obtain ⟨hc, hrest⟩ := List.forall_mem_cons.1 h
    have hstep : text.step c = (text, true) := by
      unfold step
      split
      · next he => exact absurd hc (by subst he; decide)
      · split
        · next he => exact absurd hc (by rcases he with rfl | rfl <;> decide)
        · simp [isShown, hc]
    simp [shown, hstep, ih hrest]

end Scan

/-- A text as it is shown where no terminal reads it. -/
def withoutControls (text : String) : String := String.ofList (Scan.text.shown text.toList)

end Calibration.Text
