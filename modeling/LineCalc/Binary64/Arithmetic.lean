import LineCalc.Binary64.Rounding

/-!
# Arithmetic on binary64 numbers

Each operation takes the exact result of two finite numbers as a quotient of
units and rounds it once.  The sign of a product or a quotient is negative when
the signs differ, also when it rounds to zero.  A sum that is exactly zero is
negative only if both summands are, so `x - x` is a positive zero and
`-0 + -0` a negative one.

An infinite operand gives an infinity except where no limit decides:
opposite infinities added, zero times an infinity, an infinity divided by an
infinity and zero divided by zero are NaN, and so is every operation on NaN.
-/

namespace LineCalc

namespace Binary64

/-- The number with the other sign. -/
def neg : Binary64 → Binary64
  | .nan => .nan
  | .infinite s => .infinite (!s)
  | .finite s m => .finite (!s) m

/-- Addition, rounded once. -/
def add : Binary64 → Binary64 → Binary64
  | .nan, _ => .nan
  | _, .nan => .nan
  | .infinite s, .infinite t => if s = t then .infinite s else .nan
  | .infinite s, .finite _ _ => .infinite s
  | .finite _ _, .infinite t => .infinite t
  | .finite s a, .finite t b =>
    let total := a.signed s + b.signed t
    -- A sum of zero needs a sign that no rounding can tell.
    if total = 0 then .finite (s && t) .zero else nearest (total < 0) total.natAbs 1

/-- Subtraction adds the number with the other sign. -/
def sub (x y : Binary64) : Binary64 := add x (neg y)

/-- Multiplication, rounded once. -/
def mul : Binary64 → Binary64 → Binary64
  | .nan, _ => .nan
  | _, .nan => .nan
  | .infinite s, .infinite t => .infinite (s ^^ t)
  | .infinite s, .finite t b => if b.units = 0 then .nan else .infinite (s ^^ t)
  | .finite s a, .infinite t => if a.units = 0 then .nan else .infinite (s ^^ t)
  | .finite s a, .finite t b => nearest (s ^^ t) (a.units * b.units) one

/-- Division, rounded once. -/
def div : Binary64 → Binary64 → Binary64
  | .nan, _ => .nan
  | _, .nan => .nan
  | .infinite _, .infinite _ => .nan
  | .infinite s, .finite t _ => .infinite (s ^^ t)
  | .finite s _, .infinite t => .finite (s ^^ t) .zero
  | .finite s a, .finite t b =>
    if b.units = 0 then
      if a.units = 0 then .nan else .infinite (s ^^ t)
    else
      nearest (s ^^ t) (a.units * one) b.units

instance : Neg Binary64 := ⟨neg⟩
instance : Add Binary64 := ⟨add⟩
instance : Sub Binary64 := ⟨sub⟩
instance : Mul Binary64 := ⟨mul⟩
instance : Div Binary64 := ⟨div⟩

end Binary64

end LineCalc
