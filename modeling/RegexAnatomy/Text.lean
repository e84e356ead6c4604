/-! Pattern text as a list of characters. Positions in a pattern are byte
offsets into its UTF-8 form, so the length that matters is `utf8Length`; it is
additive, which is what lets a position be read off the text before it. -/

namespace RegexAnatomy

abbrev Text := List Char

def utf8Length : Text → Nat
  | [] => 0
  | c :: rest => c.utf8Size + utf8Length rest

@[simp] theorem utf8Length_nil : utf8Length [] = 0 := rfl

@[simp] theorem utf8Length_cons (c : Char) (t : Text) :
    utf8Length (c :: t) = c.utf8Size + utf8Length t := rfl

@[simp] theorem utf8Length_append (s t : Text) :
    utf8Length (s ++ t) = utf8Length s + utf8Length t := by
  induction s with
  | nil => simp
  | cons c s ih => simp [ih, Nat.add_assoc]

def isNumeral (t : Text) : Bool := !t.isEmpty && t.all Char.isDigit

/-- The number written by a run of digits; leading zeros do not count. -/
def numeralValue (t : Text) : Nat := Nat.ofDigitChars 10 t 0

def numeral (n : Nat) : Text := Nat.toDigits 10 n

theorem numeralValue_numeral (n : Nat) : numeralValue (numeral n) = n :=
  Nat.ofDigitChars_toDigits (by decide) (by decide)

end RegexAnatomy
