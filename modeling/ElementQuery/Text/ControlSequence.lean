/-
Text without the control sequences of a terminal. A sequence starts with an escape character and
ends with a final character, or, if it carries a string, with a terminator; outside of sequences
all but control characters shows, and of these the four that lay out text. Laws: text without
control characters stays as it is, and stripped text holds none but the four.
-/

namespace ElementQuery.Text

/-- The controls that lay out text: tab, line feed, form feed and carriage return. -/
def isLayout (c : Char) : Bool := c = '\t' || c = '\n' || c = '\x0c' || c = '\r'

/-- Whether a character lies outside of ASCII, where each is encoded by bytes above those of the
controls. -/
def isWide (c : Char) : Bool := 0x80 ≤ c.toNat

/-- Whether a character shows outside of sequences. -/
def shows (c : Char) : Bool := (0x20 ≤ c.toNat && c.toNat ≠ 0x7f) || isLayout c

/-- What a sequence that has begun waits for. -/
inductive Sequence where
  /-- The character after the escape character, which says what sequence this is. -/
  | introducer
  /-- The final character, after intermediate ones. -/
  | final
  /-- The final character of a control sequence with parameters. -/
  | control
  /-- The parameters of a device control string. -/
  | device
  /-- Further parameters of a device control string. -/
  | deviceParameters
  /-- The final character of the head of a device control string. -/
  | deviceFinal
  /-- The terminator of a string. -/
  | string
  /-- The terminator of a command to the operating system. -/
  | command
  deriving DecidableEq, Repr

namespace Sequence

/-- Whether a control that lays out text acts in the middle of the sequence; inside of strings it
is one of their characters. -/
def admitsLayout : Sequence → Bool
  | introducer | final | control => true
  | _ => false

/-- The sequence that an introducer opens, if it needs more characters. -/
def opened? (c : Char) : Option Sequence :=
  if c.toNat < 0x20 ∨ 0x7f ≤ c.toNat then some introducer
  else if c.toNat < 0x30 then some final
  else if c = '[' then some control
  else if c = ']' then some command
  else if c = 'P' then some device
  else if c = 'X' ∨ c = '^' ∨ c = '_' then some string
  else none

/-- Whether a character lies between two code points. -/
def within (low high : Nat) (c : Char) : Bool := low ≤ c.toNat && c.toNat ≤ high

/-- The sequence after a character that is not an escape or cancel character, if it goes on. A
string ends at the byte 9C, the terminator among the eight-bit controls, also where that byte is
a part of an encoded character. -/
def after? : Sequence → Char → Option Sequence
  | introducer, c => opened? c
  | final, c => if within 0x30 0x7e c then none else some final
  | control, c => if within 0x40 0x7e c then none else some control
  | device, c =>
    some (if within 0x20 0x2f c then deviceFinal
      else if within 0x30 0x3f c then deviceParameters
      else if within 0x40 0x7e c then string
      else device)
  | deviceParameters, c =>
    some (if within 0x20 0x2f c then deviceFinal
      else if within 0x3c 0x7e c then string
      else deviceParameters)
  | deviceFinal, c => some (if within 0x30 0x7e c then string else deviceFinal)
  | string, c => if (String.utf8EncodeChar c).contains 0x9c then none else some string
  | command, c => if c = '\x07' then none else some command

/-- The sequence after a character, if it goes on. An escape character starts a new sequence, and
the characters 18 and 1A cancel every sequence. -/
def next? (s : Sequence) (c : Char) : Option Sequence :=
  if c = '\x1b' then some introducer
  else if c = '\x18' ∨ c = '\x1a' then none
  else s.after? c

end Sequence

/-- Where in the text a reader stands. -/
inductive Place where
  /-- Outside of sequences. -/
  | plain
  /-- In a sequence. -/
  | inside (s : Sequence)
  /-- In a sequence that a layout control has interrupted: what follows shows, and the sequence
  goes on at the next control character, unless a character outside of ASCII comes first. -/
  | interrupted (s : Sequence)
  deriving DecidableEq, Repr

namespace Place

/-- In a sequence that goes on, or outside of sequences. -/
def ofSequence? : Option Sequence → Place
  | some s => inside s
  | none => plain

/-- Whether a character shows at a place. -/
def shows : Place → Char → Bool
  | inside s, c => s.admitsLayout && isLayout c
  | _, c => Text.shows c

/-- The place after a character. -/
def next : Place → Char → Place
  | plain, c => if c = '\x1b' then inside .introducer else plain
  | inside s, c => if s.admitsLayout && isLayout c then interrupted s else ofSequence? (s.next? c)
  | interrupted s, c =>
    if isWide c then plain
    else if Text.shows c then interrupted s
    else ofSequence? (s.next? c)

end Place

/-- The characters that show, from a place on. -/
def stripFrom : Place → List Char → List Char
  | _, [] => []
  | p, c :: cs => if p.shows c then c :: stripFrom (p.next c) cs else stripFrom (p.next c) cs

/-- A text without its control sequences and without the controls that do not lay out text. -/
def stripControls (s : String) : String := String.ofList (stripFrom .plain s.toList)

theorem shows_of_isLayout {c : Char} (h : isLayout c = true) : shows c = true := by
  simp [shows, h]

theorem ne_escape_of_shows {c : Char} (h : shows c = true) : c ≠ '\x1b' := by
  rintro rfl
  exact absurd h (by decide)

theorem next_plain_of_shows {c : Char} (h : shows c = true) : Place.plain.next c = .plain := by
  simp [Place.next, ne_escape_of_shows h]

/-- Text that shows in full stays as it is. -/
theorem stripFrom_plain_of_shows : ∀ {cs : List Char}, (∀ c ∈ cs, shows c = true) →
    stripFrom .plain cs = cs
  | [], _ => rfl
  | c :: cs, h => by
    have hc : shows c = true := h c List.mem_cons_self
    have ih : stripFrom .plain cs = cs :=
      stripFrom_plain_of_shows fun d hd => h d (List.mem_cons_of_mem c hd)
    rw [stripFrom, next_plain_of_shows hc, ih]
    simp [Place.shows, hc]

theorem Place.shows_le {p : Place} {c : Char} (h : p.shows c = true) : Text.shows c = true := by
  cases p with
  | plain => exact h
  | inside s =>
    simp only [Place.shows, Bool.and_eq_true] at h
    exact shows_of_isLayout h.2
  | interrupted s => exact h

/-- What is left shows in full. -/
theorem shows_of_mem_stripFrom : ∀ {p : Place} {cs : List Char} {c : Char},
    c ∈ stripFrom p cs → shows c = true
  | _, [], _, h => nomatch h
  | p, d :: cs, c, h => by
    rw [stripFrom] at h
    split at h
    · next hd =>
      rcases List.mem_cons.1 h with rfl | h
      · exact Place.shows_le hd
      · exact shows_of_mem_stripFrom h
    · exact shows_of_mem_stripFrom h

/-- Stripping twice is stripping once. -/
theorem stripControls_stripControls (s : String) :
    stripControls (stripControls s) = stripControls s := by
  simp only [stripControls, String.toList_ofList]
  rw [stripFrom_plain_of_shows fun c hc => shows_of_mem_stripFrom hc]

end ElementQuery.Text
