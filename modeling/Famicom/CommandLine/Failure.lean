/-!
How a run tells that it failed: what could not be done, and beneath it the causes, the outermost first. One
cause is indented; several are numbered.
-/

namespace Famicom.CommandLine

/-- A message with its causes. -/
structure Failure where
  message : String
  causes : List String := []
  deriving DecidableEq, Repr, Inhabited

namespace Failure

/-- Puts a failure beneath a message that says what it stopped. -/
def within (f : Failure) (message : String) : Failure := ⟨message, f.message :: f.causes⟩

/-- A text whose further lines are indented. -/
def indent (margin text : String) : String := String.intercalate ("\n" ++ margin) (text.splitOn "\n")

/-- The lines of several causes, numbered from a number on. -/
def numbered (start : Nat) : List String → List String
  | [] => []
  | cause :: rest =>
    let digits := toString start
    (String.ofList (List.replicate (5 - digits.length) ' ') ++ digits ++ ": " ++
      indent "       " cause) :: numbered (start + 1) rest

/-- The lines of the causes. -/
def causeLines : List String → List String
  | [cause] => ["    " ++ indent "    " cause]
  | causes => numbered 0 causes

/-- The report on the error stream. -/
def report (f : Failure) : String :=
  let head := s!"Error: {f.message}\n"
  if f.causes.isEmpty then head
  else head ++ "\nCaused by:\n" ++ String.intercalate "\n" (causeLines f.causes) ++ "\n"

end Failure

end Famicom.CommandLine
