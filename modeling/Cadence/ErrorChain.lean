/-!
Error messages together with what caused them.

A chain lists the messages from the outermost to the innermost.  A command that
fails reports one on its error output.
-/

namespace Cadence

abbrev ErrorChain := List String

namespace ErrorChain

/-- The chain on one line. -/
def joined (chain : ErrorChain) : String := ": ".intercalate chain

/-- Names what was being done when the error arose. -/
def within (context : String) (chain : ErrorChain) : ErrorChain := context :: chain

def linesOf (text : String) : List String :=
  (text.toList.splitOn '\n').map String.ofList

/-- A cause behind a margin, or behind its number if there are several. -/
def causeLines (number : Option Nat) (text : String) : List String :=
  let (first, margin) : String × String := match number with
    | none => ("    ", "    ")
    | some n => ("".pushn ' ' (5 - (toString n).length) ++ toString n ++ ": ", "       ")
  match linesOf text with
  | [] => []
  | line :: more => (first ++ line) :: more.map (margin ++ ·)

/-- The report of a program that ends with this error, line by line. -/
def report : ErrorChain → List String
  | [] => []
  | [message] => linesOf ("Error: " ++ message)
  | [message, cause] => linesOf ("Error: " ++ message) ++ ["", "Caused by:"] ++ causeLines none cause
  | message :: causes =>
      linesOf ("Error: " ++ message) ++ ["", "Caused by:"] ++
        causes.zipIdx.flatMap (fun (cause, n) => causeLines (some n) cause)

end ErrorChain

/-- What a command does when it runs to its end. -/
structure Outcome where
  code : Nat := 0
  stdout : String := ""
  /-- The lines of the error output. -/
  stderr : List String := []
  deriving DecidableEq, Repr

end Cadence
