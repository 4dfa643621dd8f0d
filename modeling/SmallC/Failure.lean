import SmallC.Fault

/-!
# Failures

Why a run failed: a diagnostic of the compiler, a file that is missing, several failures at once,
or anything else that has only a message, each possibly with the work that it spoiled in front.
-/

namespace SmallC

inductive Failure where
  | diagnostic (d : Diagnostic)
  /-- A file that does not exist. -/
  | missing (message : Text)
  | plain (message : Text)
  | during (work : Text) (cause : Failure)
  | several (causes : List Failure)

instance : Inhabited Failure := ⟨.plain []⟩

namespace Failure

def bulletList (messages : List Text) : Text :=
  let count := messages.length
  let title := if count = 1 then Text.ofString "1 error occurred:"
    else Text.ofNat count ++ Text.ofString " errors occurred:"
  title ++ Text.ofString "\n\t" ++
    Text.joinWith "\n\t" (messages.map fun m => Text.ofString "* " ++ m) ++ Text.ofString "\n\n"

mutual

def message : Failure → Text
  | .diagnostic d => d.render
  | .missing m | .plain m => m
  | .during work cause => work ++ Text.ofString ": " ++ cause.message
  | .several causes => bulletList (messages causes)

def messages : List Failure → List Text
  | [] => []
  | f :: fs => f.message :: messages fs

end

def numberedList (messages : List Text) : Text :=
  let entry (p : Text × Nat) : Text :=
    Text.ofString "\n    " ++ Text.ofNat (p.2 + 1) ++ Text.ofString ") " ++ p.1
  Text.ofNat messages.length ++ Text.ofString " errors occurred:"
    ++ messages.zipIdx.flatMap entry

mutual

/-- The message as it is shown to a user: several failures are numbered, a single one stands for
itself. -/
def shown : Failure → Text
  | .several causes =>
    match shownAll causes with
    | [m] => m
    | ms => numberedList ms
  | .diagnostic d => d.render
  | .missing m | .plain m => m
  | .during work cause => work ++ Text.ofString ": " ++ cause.message

def shownAll : List Failure → List Text
  | [] => []
  | f :: fs => f.shown :: shownAll fs

end

def diagnostic? : Failure → Option Diagnostic
  | .diagnostic d => some d
  | .during _ cause => cause.diagnostic?
  | _ => none

end Failure
end SmallC
