import Dossier.Store.Error
import Dossier.Text.Ascii
import Dossier.Json.Encoding

/-!
# Identifiers of documents

A document brings its identifier, a string that is not empty or an integer, or is given one. An
`IdSource` gives one identifier after another. `timeOrderedId` makes them of a time, a counter and a
random number, so that later ones are greater as texts.
-/

namespace Dossier

open Text

/-- The identifier that a value stands for. -/
def identifierOf : Json → Except StoreError String
  | .string s => if s.isEmpty then .error (.invalid .badIdentifier) else .ok s
  | .number (.whole n) => .ok (String.ofList (Number.intText n.val))
  | _ => .error (.invalid .badIdentifier)

/-- A source of identifiers: how many it has given, and which one comes at each place. -/
structure IdSource where
  given : Nat
  name : Nat → String

namespace IdSource

/-- A source that has given none. -/
def start (name : Nat → String) : IdSource := ⟨0, name⟩

/-- The next identifier, and the source after it. -/
def next (s : IdSource) : String × IdSource := (s.name s.given, { s with given := s.given + 1 })

end IdSource

/-- The hexadecimal digits of the time, of the counter and of the random number. -/
def timeDigits : Nat := 12
def counterDigits : Nat := 6
def randomDigits : Nat := 8

/-- The identifier of a time in milliseconds, a counter and a random number. Each part has a fixed
width and wraps around. -/
def timeOrderedId (milliseconds counter random : Nat) : String :=
  String.ofList (hexDigits timeDigits milliseconds ++ hexDigits counterDigits counter
    ++ hexDigits randomDigits random)

namespace IdSource

/-- Identifiers in the order of time, for a clock and a source of random numbers. -/
def timeOrdered (clock random : Nat → Nat) : IdSource :=
  start fun n => timeOrderedId (clock n) n (random n)

end IdSource

end Dossier
