import SmallC.Failure
import SmallC.Text.ByteSize
import SmallC.Text.Shell

/-!
# Events

What a build reports on its way.
-/

namespace SmallC

inductive Event where
  | compiling (file : Text)
  | wrote (file : Text) (size : Nat)
  | running (argv : List Text)
  | removing (file : Text)
  /-- Output of a failed step that could not be removed. -/
  | partialKept (file : Text) (cause : Failure)
  /-- Intermediates of a failed build that could not be removed. -/
  | cleanupFailed (cause : Failure)
  /-- What a program printed on its error stream. -/
  | printed (text : Text)

namespace Event

/-- The line of the log for an event; what programs print is shown in any case. -/
def render (verbose : Bool) (e : Event) : Text :=
  let line (letter : String) (t : Text) : Text :=
    if verbose then Text.ofString letter ++ Text.ofString " " ++ t ++ Text.ofString "\n" else []
  match e with
  | .compiling file => line "I" (Text.ofString "compiling " ++ file)
  | .wrote file size =>
    line "I" (Text.ofString "wrote " ++ file ++ Text.ofString " (" ++ Text.byteSize size
      ++ Text.ofString ")")
  | .running argv => line "I" (Text.shellCommand argv)
  | .removing file => line "I" (Text.ofString "removing " ++ file)
  | .partialKept file cause =>
    line "W" (Text.ofString "removing partial output " ++ file ++ Text.ofString ": "
      ++ cause.message)
  | .cleanupFailed cause =>
    line "W" (Text.ofString "cleaning up after failure: " ++ cause.message)
  | .printed t => t

end Event
end SmallC
