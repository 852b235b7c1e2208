/-!
# MessagePipe.Text.Decimal

The decimal text of a number of equal parts: the whole part, then a point and
the parts that are left, with as few digits as name them exactly.  Nothing is
written after the whole part when nothing is left.
-/

namespace MessagePipe.Text

/-- The digits of `n` with zeros in front, up to `width` of them. -/
def paddedDigits (width n : Nat) : List Char :=
  let digits := Nat.toDigits 10 n
  List.replicate (width - digits.length) '0' ++ digits

/-- A list of digits without the zeros at its end. -/
def trimZeros (digits : List Char) : List Char :=
  (digits.reverse.dropWhile (· == '0')).reverse

/-- `n` parts, of which `10 ^ places` make a whole. -/
def decimal (places n : Nat) : String :=
  let unit := Nat.pow 10 places
  let whole := toString (n / unit)
  match n % unit with
  | 0 => whole
  | rest => whole ++ "." ++ String.ofList (trimZeros (paddedDigits places rest))

end MessagePipe.Text
