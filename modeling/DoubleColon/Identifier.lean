import DoubleColon.Identifier.Ranges

/-!
# Identifiers

An identifier begins with a character of the Unicode property `XID_Start`, an underscore or a
dollar sign, and goes on with characters of `XID_Continue` and dollar signs. Which characters have
the two properties is a parameter, as it depends on the version of Unicode. The instance has the
tables of version 17.
-/

set_option autoImplicit false

namespace DoubleColon.Identifier

class XidProperties where
  isXidStart : Char → Bool
  isXidContinue : Char → Bool

def inRanges (n : Nat) (ranges : List (Nat × Nat)) : Bool :=
  ranges.any fun r => r.1 ≤ n && n ≤ r.2

instance : XidProperties where
  isXidStart c := inRanges c.toNat startRanges
  isXidContinue c := inRanges c.toNat startRanges || inRanges c.toNat extraRanges

section

variable [XidProperties]

def isStart (c : Char) : Bool := XidProperties.isXidStart c || c = '_' || c = '$'

def isPart (c : Char) : Bool := XidProperties.isXidContinue c || c = '$'

def isValidChars : List Char → Bool
  | [] => false
  | c :: rest => isStart c && rest.all isPart

def isValid (name : String) : Bool := isValidChars name.toList

end

example : isValid "size" = true := by decide +kernel

example : isValid "$1" = true := by decide +kernel

example : isValid "1st" = false := by decide +kernel

example : isValid "" = false := by decide +kernel

end DoubleColon.Identifier
