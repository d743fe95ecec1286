import Mathlib.Algebra.Ring.Int.Defs
import SourceNavigator.Text

/-!
Numbers in texts (`generic/tclGet.c` of the Tcl library).

`Tcl_GetInt` reads the sign itself and leaves the digits to `strtoul`, which reads white space and
a sign once more. White space may follow.
-/

namespace SourceNavigator.Tcl

/-- `strtoul(p, &end, 0)` of the digits: the number and the end; `none` if there are no digits. -/
def strtoulDigits (p : Text) : Option (Nat × Text) :=
  if (p.head?.bind digitValue).any (· < 10) then
    let base := (announcedBase p).1
    let digit := fun c => (digitValue c).any (· < base)
    some (readDigits base 0 (announcedBase p).2, (announcedBase p).2.dropWhile digit)
  else none

/-- `strtoul(p, &end, 0)` with a sign; `none` is also a number that is out of range. -/
def strtoulEnd (p : Text) : Option (Int × Text) :=
  let inRange := fun number : Nat × Text => number.1 < 18446744073709551616
  match skipSpace p with
  | 45 :: p => ((strtoulDigits p).filter inRange).map fun number => (-number.1, number.2)
  | 43 :: p => ((strtoulDigits p).filter inRange).map fun number => (number.1, number.2)
  | p => ((strtoulDigits p).filter inRange).map fun number => (number.1, number.2)

/-- `Tcl_GetInt`; `none` is an error. -/
def Tcl_GetInt (string : Text) : Option Int :=
  let number : Option (Int × Text) :=
    match skipSpace string with
    | 45 :: p => (strtoulEnd p).map fun number => (-number.1, number.2)
    | 43 :: p => strtoulEnd p
    | p => strtoulEnd p
  number.bind fun number =>
    let i := number.1.bmod 18446744073709551616
    if int32 i = i ∧ skipSpace number.2 = [] then some i else none

end SourceNavigator.Tcl
