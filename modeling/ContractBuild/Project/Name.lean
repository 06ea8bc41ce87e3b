import ContractBuild.Text.Alphabetic
import ContractBuild.Text.LetterCase

/-! Names for projects that have none in their configurations, made of the names of their
directories. -/

namespace ContractBuild.Project

open Text

def nameEnding : String := "project"

def lowered (s : String) : List Char := s.toList.flatMap lowerCase.apply

def withEnding (directory : String) : String :=
  if nameEnding.toList.isSuffixOf (lowered directory) then directory
  else directory ++ " " ++ nameEnding

/-- Every run of letters with its first one in upper case and the others in lower case; all that is
no letter is left out. -/
def titled (afterLetter : Bool) : List Char → List Char
  | [] => []
  | c :: rest =>
    if isAlphabetic c then
      (if afterLetter then lowerCase else upperCase).apply c ++ titled true rest
    else titled false rest

def nameOfDirectory (directory : String) : String :=
  String.ofList (titled false (withEnding directory).toList)

end ContractBuild.Project
