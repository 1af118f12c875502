import LineCalc.Lexeme
import Mathlib.Data.List.TakeWhile
import Mathlib.Data.Nat.Digits.Lemmas

/-!
# Items

The *items* of a line are its lexemes, each with the position of its first
character.  `itemsAfter` reads them off one character at a time and looks at
nothing but that character and whether a digit stood before it, so a run of
digits is an item where it begins and nothing more where it goes on.  Its value
is told from the places of the digits (`Lexeme.decimalValue`).  It is
another way to the same pieces as `Lexeme.cut?`, which takes a whole lexeme off
the line at once; `itemsFrom_of_cut?` and `itemsFrom_of_cut?_eq_none` say that the
two agree.

A line may be cut in two anywhere but within a run of digits: the items of the
whole are then the items of the parts (`itemsFrom_append`).  Conversely every item
marks such a place (`exists_cutBefore`).
-/

namespace LineCalc

/-! ## Digits at the ends of a text -/

/-- Whether a text starts with a digit. -/
def startsWithDigit (text : List Char) : Bool := text.head?.any Char.isDigit

/-- Whether a digit stands at the end of a text; `digit` says whether one stands
before it. -/
def digitAfter (digit : Bool) (text : List Char) : Bool :=
  (text.getLast?.map Char.isDigit).getD digit

/-- Two texts that do not meet within a run of digits. -/
def Separate (front back : List Char) : Prop :=
  digitAfter false front = true → startsWithDigit back = false

instance (front back : List Char) : Decidable (Separate front back) :=
  inferInstanceAs (Decidable (_ → _))

@[simp] theorem startsWithDigit_cons (c : Char) (rest : List Char) :
    startsWithDigit (c :: rest) = c.isDigit := rfl

@[simp] theorem digitAfter_cons (digit : Bool) (c : Char) (rest : List Char) :
    digitAfter digit (c :: rest) = digitAfter c.isDigit rest := by
  rw [digitAfter, List.getLast?_cons, digitAfter]
  cases rest.getLast? <;> rfl

theorem startsWithDigit_digits_append {digits : List Char} (nonempty : digits ≠ [])
    (all : ∀ c ∈ digits, c.isDigit = true) (rest : List Char) :
    startsWithDigit (digits ++ rest) = true := by
  cases digits with
  | nil => exact absurd rfl nonempty
  | cons c digits => exact all c List.mem_cons_self

theorem separate_of_not_startsWithDigit {front back : List Char}
    (starts : startsWithDigit back = false) : Separate front back := fun _ => starts

/-- What is left after a run of digits starts with no digit. -/
theorem startsWithDigit_dropWhile (text : List Char) :
    startsWithDigit (text.dropWhile Char.isDigit) = false := by
  have stopped := List.head?_dropWhile_not Char.isDigit text
  rw [startsWithDigit]
  cases starts : (text.dropWhile Char.isDigit).head? with
  | none => rfl
  | some c =>
    rw [starts] at stopped
    exact stopped

/-- A text that does not start with a digit adds nothing to a run before it. -/
theorem takeWhile_isDigit_append {front back : List Char}
    (separate : digitAfter true front = true → startsWithDigit back = false) :
    (front ++ back).takeWhile Char.isDigit = front.takeWhile Char.isDigit := by
  induction front with
  | nil =>
    have starts := separate rfl
    cases back with
    | nil => rfl
    | cons c rest => simpa using starts
  | cons c front induction =>
    rw [digitAfter_cons] at separate
    cases digit : c.isDigit with
    | true =>
      rw [digit] at separate
      simp [digit, induction separate]
    | false => simp [digit]

/-! ## Values of digits -/

namespace Lexeme

/-- The number that digits write in base 10: the last digit counts ones, the one before
it tens, and so on. -/
def decimalValue (digits : List Char) : Nat :=
  Nat.ofDigits 10 (digits.reverse.map fun c => c.toNat - '0'.toNat)

theorem ofDigitChars_eq (digits : List Char) (accumulator : Nat) :
    Nat.ofDigitChars 10 digits accumulator =
      decimalValue digits + 10 ^ digits.length * accumulator := by
  induction digits generalizing accumulator with
  | nil => simp [decimalValue]
  | cons c digits induction =>
    have last : decimalValue (c :: digits) =
        decimalValue digits + 10 ^ digits.length * (c.toNat - '0'.toNat) := by
      simp [decimalValue, Nat.ofDigits_append]
    rw [Nat.ofDigitChars_cons, induction, last, List.length_cons, pow_succ]
    ring

theorem digitsValue_eq_decimalValue (digits : List Char) :
    digitsValue digits = decimalValue digits := by
  have value := ofDigitChars_eq digits 0
  rwa [Nat.mul_zero, Nat.add_zero] at value

end Lexeme

/-! ## Reading items -/

/-- The lexeme that a character is by itself if it is neither blank nor a
digit. -/
def Lexeme.single : Char → Lexeme
  | '+' => .operator .add
  | '-' => .operator .sub
  | '*' => .operator .mul
  | '/' => .operator .div
  | c => .invalid c

/-- A lexeme with its place in a line, in characters. -/
structure Item where
  lexeme : Lexeme
  /-- The position of its first character. -/
  position : Nat
  deriving DecidableEq

/-- The item that begins with the character `c` at a position, if one does;
`digit` says whether a digit stands before it, and `rest` follows it. -/
def beginning? (digit : Bool) (position : Nat) (c : Char) (rest : List Char) : Option Item :=
  if c.isDigit then
    if digit then none
    else some ⟨.integer (Lexeme.decimalValue ((c :: rest).takeWhile Char.isDigit)), position⟩
  else if isBlank c then none
  else some ⟨.single c, position⟩

/-- The items of a text whose first character is at a position; `digit` says
whether a digit stands before it. -/
def itemsAfter (digit : Bool) (position : Nat) : List Char → List Item
  | [] => []
  | c :: rest =>
    (beginning? digit position c rest).toList ++ itemsAfter c.isDigit (position + 1) rest

/-- The items of a text whose first character is at a position. -/
def itemsFrom (position : Nat) (text : List Char) : List Item := itemsAfter false position text

/-- The items of a line in order. -/
def items (line : List Char) : List Item := itemsFrom 1 line

/-! ## One piece at a time -/

/-- A digit after a digit begins nothing. -/
theorem not_isDigit_of_beginning? {digit : Bool} {position : Nat} {c : Char} {rest : List Char}
    {item : Item} (begins : beginning? digit position c rest = some item)
    (after : digit = true) : c.isDigit = false := by
  subst after
  cases isDigit : c.isDigit with
  | true => simp [beginning?, isDigit] at begins
  | false => rfl

theorem not_isBlank_of_beginning? {digit : Bool} {position : Nat} {c : Char} {rest : List Char}
    {item : Item} (begins : beginning? digit position c rest = some item) :
    isBlank c = false := by
  cases isDigit : c.isDigit with
  | true => exact isBlank_eq_false_of_isDigit isDigit
  | false =>
    cases blank : isBlank c with
    | true => simp [beginning?, isDigit, blank] at begins
    | false => rfl

theorem position_of_beginning? {digit : Bool} {position : Nat} {c : Char} {rest : List Char}
    {item : Item} (begins : beginning? digit position c rest = some item) :
    item.position = position := by
  rw [beginning?] at begins
  split at begins
  next => split at begins <;> cases begins; rfl
  next => split at begins <;> cases begins; rfl

theorem itemsAfter_of_not_startsWithDigit {text : List Char}
    (starts : startsWithDigit text = false) (digit : Bool) (position : Nat) :
    itemsAfter digit position text = itemsFrom position text := by
  cases text with
  | nil => rfl
  | cons c rest =>
    rw [startsWithDigit_cons] at starts
    simp [itemsFrom, itemsAfter, beginning?, starts]

theorem isDigit_eq_false_of_isBlank {c : Char} (blank : isBlank c = true) :
    c.isDigit = false := by
  rw [Bool.eq_false_iff]
  intro digit
  rw [isBlank_eq_false_of_isDigit digit] at blank
  cases blank

theorem itemsFrom_cons_of_isBlank {c : Char} (blank : isBlank c = true) (position : Nat)
    (rest : List Char) : itemsFrom position (c :: rest) = itemsFrom (position + 1) rest := by
  have noDigit := isDigit_eq_false_of_isBlank blank
  simp [itemsFrom, itemsAfter, beginning?, noDigit, blank]

theorem itemsFrom_cons_single {c : Char} (noDigit : c.isDigit = false)
    (noBlank : isBlank c = false) (position : Nat) (rest : List Char) :
    itemsFrom position (c :: rest) =
      ⟨.single c, position⟩ :: itemsFrom (position + 1) rest := by
  simp [itemsFrom, itemsAfter, beginning?, noDigit, noBlank]

/-- Blanks are no items; they only take up positions. -/
theorem itemsFrom_blanks_append {blanks : List Char} (blank : ∀ c ∈ blanks, isBlank c = true)
    (position : Nat) (rest : List Char) :
    itemsFrom position (blanks ++ rest) = itemsFrom (position + blanks.length) rest := by
  induction blanks generalizing position with
  | nil => rfl
  | cons c blanks induction =>
    rw [List.cons_append, itemsFrom_cons_of_isBlank (blank c List.mem_cons_self),
      induction fun d membership => blank d (List.mem_cons_of_mem c membership)]
    simp only [List.length_cons]
    congr 1
    omega

theorem itemsFrom_dropWhile_isBlank (text : List Char) (position : Nat) :
    itemsFrom position text =
      itemsFrom (position + (text.takeWhile isBlank).length) (text.dropWhile isBlank) := by
  have blank : ∀ c ∈ text.takeWhile isBlank, isBlank c = true :=
    List.all_eq_true.1 List.all_takeWhile
  have skipped := itemsFrom_blanks_append blank position (text.dropWhile isBlank)
  rwa [List.takeWhile_append_dropWhile] at skipped

/-- Within a run of digits no item begins. -/
theorem itemsAfter_digits_append {digits : List Char} (all : ∀ c ∈ digits, c.isDigit = true)
    (position : Nat) (rest : List Char) :
    itemsAfter true position (digits ++ rest) =
      itemsAfter true (position + digits.length) rest := by
  induction digits generalizing position with
  | nil => rfl
  | cons c digits induction =>
    have later := induction (fun d membership => all d (List.mem_cons_of_mem c membership))
      (position + 1)
    simp only [List.cons_append, itemsAfter, beginning?, all c List.mem_cons_self, ↓reduceIte,
      Option.toList_none, List.nil_append, later, List.length_cons]
    congr 1
    omega

/-- A run of digits is one item. -/
theorem itemsFrom_digits_append {digits rest : List Char} (nonempty : digits ≠ [])
    (all : ∀ c ∈ digits, c.isDigit = true) (ends : startsWithDigit rest = false)
    (position : Nat) :
    itemsFrom position (digits ++ rest) =
      ⟨.integer (Lexeme.decimalValue digits), position⟩ ::
        itemsFrom (position + digits.length) rest := by
  have run : (digits ++ rest).takeWhile Char.isDigit = digits := by
    rw [takeWhile_isDigit_append fun _ => ends]
    exact List.takeWhile_eq_self_iff.2 all
  cases digits with
  | nil => exact absurd rfl nonempty
  | cons c digits =>
    have first : c.isDigit = true := all c List.mem_cons_self
    have later : itemsAfter true (position + 1) (digits ++ rest) =
        itemsFrom (position + 1 + digits.length) rest := by
      rw [itemsAfter_digits_append fun d membership => all d (List.mem_cons_of_mem c membership)]
      exact itemsAfter_of_not_startsWithDigit ends true _
    rw [List.cons_append] at run ⊢
    rw [itemsFrom, itemsAfter, beginning?, first, run, later, List.length_cons,
      show position + 1 + digits.length = position + (digits.length + 1) by omega]
    rfl

theorem isDigit_of_mem_takeWhile (text : List Char) :
    ∀ c ∈ text.takeWhile Char.isDigit, c.isDigit = true :=
  List.all_eq_true.1 List.all_takeWhile

theorem itemsFrom_cons_of_isDigit {c : Char} (digit : c.isDigit = true) (position : Nat)
    (rest : List Char) :
    itemsFrom position (c :: rest) =
      ⟨.integer (Lexeme.decimalValue ((c :: rest).takeWhile Char.isDigit)), position⟩ ::
        itemsFrom (position + ((c :: rest).takeWhile Char.isDigit).length)
          ((c :: rest).dropWhile Char.isDigit) := by
  have nonempty : (c :: rest).takeWhile Char.isDigit ≠ [] := by simp [digit]
  have run := itemsFrom_digits_append nonempty (isDigit_of_mem_takeWhile (c :: rest))
    (startsWithDigit_dropWhile (c :: rest)) position
  rwa [List.takeWhile_append_dropWhile] at run

/-! ## Whole lexemes -/

theorem Lexeme.ofChar_eq_single (c : Char) : ofChar c = single c := by
  unfold single
  split
  next => rfl
  next => rfl
  next => rfl
  next => rfl
  next noAdd noSub noMul noDiv =>
    have unspelled : Operator.ofChar? c = none := by
      rw [Operator.ofChar?, List.find?_eq_none]
      intro op _ spelled
      rw [decide_eq_true_eq] at spelled
      cases op
      · exact noAdd spelled.symm
      · exact noSub spelled.symm
      · exact noMul spelled.symm
      · exact noDiv spelled.symm
    rw [ofChar, unspelled]

/-- A line without a lexeme has no items. -/
theorem itemsFrom_of_cut?_eq_none {line : List Char} (none : Lexeme.cut? line = none)
    (position : Nat) : itemsFrom position line = [] := by
  have blank : ∀ c ∈ line, isBlank c = true :=
    List.dropWhile_eq_nil_iff.1 (Lexeme.cut?_eq_none_iff.1 none)
  have found := itemsFrom_blanks_append blank position []
  rwa [List.append_nil] at found

/-- The first lexeme of a line is its first item, and the items of what is left
follow. -/
theorem itemsFrom_of_cut? {line : List Char} {cut : Lexeme.Cut}
    (found : Lexeme.cut? line = some cut) (position : Nat) :
    itemsFrom position line =
      ⟨cut.lexeme, position + cut.blanks.length⟩ ::
        itemsFrom (position + cut.blanks.length + cut.text.length) cut.rest := by
  have skipped := itemsFrom_dropWhile_isBlank line position
  have stopped := List.head?_dropWhile_not isBlank line
  unfold Lexeme.cut? at found
  split at found
  next => cases found
  next c tail starts =>
    rw [starts] at skipped stopped
    split at found <;> cases found
    next digit =>
      rw [Lexeme.digitsValue_eq_decimalValue]
      exact skipped.trans (itemsFrom_cons_of_isDigit digit _ tail)
    next noDigit =>
      rw [skipped, itemsFrom_cons_single (Bool.eq_false_iff.2 noDigit) stopped,
        Lexeme.ofChar_eq_single]
      rfl

/-! ## Cutting a line in two -/

theorem beginning?_append {digit : Bool} {c : Char} {front back : List Char}
    (separate : digitAfter c.isDigit front = true → startsWithDigit back = false)
    (position : Nat) :
    beginning? digit position c (front ++ back) = beginning? digit position c front := by
  rw [beginning?, beginning?]
  split
  next isDigit =>
    rw [isDigit] at separate
    have run := takeWhile_isDigit_append separate
    simp [isDigit, run]
  next => rfl

theorem itemsAfter_append {front back : List Char} {digit : Bool}
    (separate : digitAfter digit front = true → startsWithDigit back = false) (position : Nat) :
    itemsAfter digit position (front ++ back) =
      itemsAfter digit position front ++ itemsFrom (position + front.length) back := by
  induction front generalizing digit position with
  | nil =>
    cases digit with
    | true => exact itemsAfter_of_not_startsWithDigit (separate rfl) true position
    | false => rfl
  | cons c front induction =>
    rw [digitAfter_cons] at separate
    rw [List.cons_append, itemsAfter, beginning?_append separate, induction separate,
      List.length_cons, show position + 1 + front.length = position + (front.length + 1) by omega,
      itemsAfter, List.append_assoc]

/-- A line may be cut anywhere but within a run of digits. -/
theorem itemsFrom_append {front back : List Char} (separate : Separate front back)
    (position : Nat) :
    itemsFrom position (front ++ back) =
      itemsFrom position front ++ itemsFrom (position + front.length) back :=
  itemsAfter_append separate position

/-! ## Cutting a line before an item -/

/-- The text `front ++ c :: back` is cut before an item: the items of the text are
`before ++ item :: after`, and `item` begins with `c`. -/
structure CutBefore (digit : Bool) (position : Nat) (front : List Char) (c : Char)
    (back : List Char) (before : List Item) (item : Item) (after : List Item) : Prop where
  position_eq : item.position = position + front.length
  separate : digitAfter digit front = true → c.isDigit = false
  not_isBlank : isBlank c = false
  items_front : itemsAfter digit position front = before
  items_back : itemsFrom item.position (c :: back) = item :: after

/-- A cut stays one when the text grows by a character in front. -/
theorem CutBefore.cons {position : Nat} {first c : Char} {front back : List Char}
    {before after : List Item} {item : Item}
    (cut : CutBefore first.isDigit (position + 1) front c back before item after)
    (digit : Bool) :
    CutBefore digit position (first :: front) c back
      ((beginning? digit position first (front ++ c :: back)).toList ++ before) item after where
  position_eq := by
    rw [cut.position_eq, List.length_cons]
    omega
  separate := by
    rw [digitAfter_cons]
    exact cut.separate
  not_isBlank := cut.not_isBlank
  items_front := by
    rw [beginning?_append (by simpa using cut.separate), itemsAfter, cut.items_front]
  items_back := cut.items_back

/-- A line may be cut before each of its items. -/
theorem exists_cutBefore {line : List Char} {digit : Bool} {position : Nat}
    {before after : List Item} {item : Item}
    (found : itemsAfter digit position line = before ++ item :: after) :
    ∃ front c back, line = front ++ c :: back ∧
      CutBefore digit position front c back before item after := by
  induction line generalizing digit position before with
  | nil => simp [itemsAfter] at found
  | cons first rest induction =>
    rw [itemsAfter] at found
    cases begins : beginning? digit position first rest with
    | none =>
      rw [begins] at found
      obtain ⟨front, c, back, rfl, cut⟩ := induction found
      have grown := cut.cons digit
      rw [begins] at grown
      exact ⟨first :: front, c, back, rfl, grown⟩
    | some begun =>
      rw [begins] at found
      cases before with
      | nil =>
        obtain ⟨rfl, later⟩ := List.cons.inj found
        have place := position_of_beginning? begins
        refine ⟨[], first, rest, rfl, place, not_isDigit_of_beginning? begins,
          not_isBlank_of_beginning? begins, rfl, ?_⟩
        cases digit with
        | true =>
          have starts : startsWithDigit (first :: rest) = false :=
            not_isDigit_of_beginning? begins rfl
          rw [place, ← itemsAfter_of_not_startsWithDigit starts true, itemsAfter, begins]
          exact congrArg _ later
        | false =>
          rw [place, itemsFrom, itemsAfter, begins]
          exact congrArg _ later
      | cons x before =>
        obtain ⟨rfl, later⟩ := List.cons.inj found
        obtain ⟨front, c, back, rfl, cut⟩ := induction later
        have grown := cut.cons digit
        rw [begins] at grown
        exact ⟨first :: front, c, back, rfl, grown⟩

/-- An item is at one of the characters of its text. -/
theorem position_of_mem_itemsAfter {digit : Bool} {position : Nat} {text : List Char}
    {item : Item} (membership : item ∈ itemsAfter digit position text) :
    position ≤ item.position ∧ item.position < position + text.length := by
  obtain ⟨before, after, found⟩ := List.append_of_mem membership
  obtain ⟨front, c, back, rfl, cut⟩ := exists_cutBefore found
  rw [cut.position_eq, List.length_append, List.length_cons]
  omega

end LineCalc
