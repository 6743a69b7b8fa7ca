/-
Small texts that messages are put together from: hexadecimal codes, bracketed
lists and padded columns.
-/
namespace NetLower.Text

/-- The digits of a number in base 16, lower case. -/
def hexDigits (n : Nat) : String := String.ofList (Nat.toDigits 16 n)

/-- A code in base 16, as in `0x4321`. -/
def hex (n : Nat) : String := "0x" ++ hexDigits n

/-- A text filled up on the left. -/
def padLeft (fill : Char) (width : Nat) (s : String) : String :=
  String.ofList (List.replicate (width - s.length) fill) ++ s

/-- A text filled up with spaces on the right. -/
def padRight (width : Nat) (s : String) : String :=
  s ++ String.ofList (List.replicate (width - s.length) ' ')

/-- A code of eight base-16 digits, as in `0x00000007`. -/
def hexWord (n : Nat) : String := "0x" ++ padLeft '0' 8 (hexDigits n)

/-- A bracketed list, as in `[1, 2]`. -/
def bracketed (items : List String) : String := "[" ++ ", ".intercalate items ++ "]"

/-- A bracketed list of sizes. -/
def sizes (ns : List Nat) : String := bracketed (ns.map toString)

end NetLower.Text
