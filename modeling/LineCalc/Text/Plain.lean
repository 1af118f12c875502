/-!
# Plain text

Text that is quoted from outside may hold control characters, which a terminal
obeys and does not show.  The plain text is what is left without them, and
without the sequences that some of them begin.

An escape character begins a sequence.  A short one ends at its first character
from `0` on and a control sequence at its first from `@` on; a command ends with
a bell, and a string with the byte `9C`.  A new escape character gives up any
sequence for a new one, and the two cancelling characters give it up for
nothing.  Other control characters are left out one at a time, except the four
breaks: tab, line feed, form feed and carriage return.

A break is kept in a sequence too, if not in a string or a command.  It is
followed by text as if the sequence had ended.  The sequence only pauses,
though: the next control character takes it up again, and a character outside
ASCII ends it.
-/

namespace LineCalc

/-! ## Characters -/

/-- The control characters of ASCII. -/
def isControl (c : Char) : Bool := c.toNat < 0x20 || c.toNat = 0x7F

/-- The control characters that are kept. -/
def isBreak (c : Char) : Bool := ['\t', '\n', '\x0C', '\r'].contains c

/-- Characters that are kept outside a sequence. -/
def isShown (c : Char) : Bool := !isControl c || isBreak c

/-- The character that begins a sequence. -/
def escapeCharacter : Char := '\x1B'

/-- The characters that end any sequence. -/
def isCancel (c : Char) : Bool := c = '\x18' || c = '\x1A'

/-- Whether a character's UTF-8 form holds the byte that ends a string. -/
def endsString (c : Char) : Bool := (String.utf8EncodeChar c).contains 0x9C

/-! ## States -/

/-- A sequence that keeps the breaks in it. -/
inductive EscapeSequence where
  /-- Just begun. -/
  | escape
  /-- Begun and gone on with punctuation. -/
  | intermediate
  /-- A control sequence, which may have parameters. -/
  | control
  deriving DecidableEq

/-- The head of a device control string. -/
inductive DeviceHead where
  | start
  | parameters
  | intermediate
  deriving DecidableEq

/-- What the text so far leaves a terminal in. -/
inductive TerminalState where
  | text
  | within (sequence : EscapeSequence)
  /-- In text after a break in a sequence. -/
  | paused (sequence : EscapeSequence)
  | device (head : DeviceHead)
  /-- A command, which a bell ends. -/
  | command
  /-- A string of any kind, which the byte `9C` ends. -/
  | string
  deriving DecidableEq

/-- The state after a printable ASCII character in a sequence. -/
def EscapeSequence.next : EscapeSequence → Char → TerminalState
  | escape, '[' => .within control
  | escape, ']' => .command
  | escape, 'P' => .device .start
  | escape, 'X' => .string
  | escape, '^' => .string
  | escape, '_' => .string
  | escape, c => if c < '0' then .within intermediate else .text
  | intermediate, c => if c < '0' then .within intermediate else .text
  | control, c => if c < '@' then .within control else .text

/-- The state after a printable ASCII character in the head of a device control
string. -/
def DeviceHead.next : DeviceHead → Char → TerminalState
  | start, c =>
    if c < '0' then .device intermediate else if c < '@' then .device parameters else .string
  | parameters, c =>
    if c < '0' then .device intermediate else if c < '<' then .device parameters else .string
  | intermediate, c => if c < '0' then .device intermediate else .string

namespace TerminalState

/-- Whether a character is part of the plain text. -/
def shows : TerminalState → Char → Bool
  | text, c => isShown c
  | within _, c => isBreak c
  | paused _, c => isShown c
  | device _, _ => false
  | command, _ => false
  | string, _ => false

/-- The state after a character other than those that every state obeys alike. -/
def proceed : TerminalState → Char → TerminalState
  | text, _ => text
  | within sequence, c =>
    if isBreak c then paused sequence
    else if isControl c || 0x80 ≤ c.toNat then within sequence
    else sequence.next c
  | paused sequence, c =>
    if 0x80 ≤ c.toNat then text
    else if isShown c then paused sequence
    else within sequence
  | device head, c => if isControl c || 0x80 ≤ c.toNat then device head else head.next c
  | command, c => if c = '\x07' then text else command
  | string, c => if endsString c then text else string

/-- The state after a character. -/
def next (state : TerminalState) (c : Char) : TerminalState :=
  if c = escapeCharacter then within .escape
  else if isCancel c then text
  else state.proceed c

/-- The plain text of what follows in a state. -/
def plain : TerminalState → List Char → List Char
  | _, [] => []
  | state, c :: rest =>
    if state.shows c then c :: (state.next c).plain rest else (state.next c).plain rest

end TerminalState

/-! ## Plain text -/

/-- The text without control characters and sequences. -/
def plainText (text : List Char) : List Char := TerminalState.text.plain text

end LineCalc
