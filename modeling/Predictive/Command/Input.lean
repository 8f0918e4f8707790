import Predictive.Text.Blank

/-!
Bytes that come from outside. A file or a line of the input is text only if it is valid UTF-8.
-/
namespace Predictive.Command

/-- Why no text could be read. -/
inductive ReadFault where
  /-- No file has the path. -/
  | missing
  /-- The system refused for another reason, with the given wording and error number. -/
  | refused (wording : String) (number : Nat)
  /-- The bytes are not valid UTF-8. -/
  | undecodable
deriving DecidableEq, Repr

/-- The wording of a read fault. -/
def ReadFault.message : ReadFault → String
  | missing => "No such file or directory (os error 2)"
  | refused wording number => wording ++ " (os error " ++ toString number ++ ")"
  | undecodable => "stream did not contain valid UTF-8"

/-- The text of some bytes. -/
def decode (bytes : List UInt8) : Except ReadFault String :=
  match String.fromUTF8? bytes.toByteArray with
  | some text => .ok text
  | none => .error .undecodable

/-- The lines of some bytes, each decoded on its own. -/
def decodeLines (bytes : List UInt8) : List (Except ReadFault String) :=
  (Text.linesEndedBy 10 13 bytes).map decode

end Predictive.Command
