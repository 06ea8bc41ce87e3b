import ContractBuild.Text.CharRanges

/-! The Unicode property White_Space, and the texts between such characters. -/

namespace ContractBuild.Text

def blankRanges : CharRanges :=
  [(0x9, 0xD), (0x20, 0x20), (0x85, 0x85), (0xA0, 0xA0), (0x1680, 0x1680), (0x2000, 0x200A),
   (0x2028, 0x2029), (0x202F, 0x202F), (0x205F, 0x205F), (0x3000, 0x3000)]

def isBlank (c : Char) : Bool := blankRanges.contains c

def trim (s : String) : String :=
  String.ofList (((s.toList.dropWhile isBlank).reverse.dropWhile isBlank).reverse)

def addToPieces (isSeparator : Char → Bool) (c : Char) (found : List (List Char)) :
    List (List Char) :=
  if isSeparator c then [] :: found
  else
    match found with
    | [] => [[c]]
    | piece :: more => (c :: piece) :: more

/-- The pieces between the characters that `isSeparator` picks, empty pieces included. -/
def pieces (isSeparator : Char → Bool) (s : List Char) : List (List Char) :=
  s.foldr (addToPieces isSeparator) [[]]

def words (s : String) : List String :=
  ((pieces isBlank s.toList).filter (!·.isEmpty)).map String.ofList

def splitOn (separator : Char) (s : String) : List String :=
  (pieces (· == separator) s.toList).map String.ofList

end ContractBuild.Text
