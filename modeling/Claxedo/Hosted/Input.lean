import Claxedo.Tasks.Contracts

/-! What the session authority takes in: texts that are trimmed and bounded, and its refusals. -/

namespace Claxedo.Hosted

/-- A field of a value that came in as JSON. -/
inductive Field where
  | absent
  | text (value : String)
  | other
  deriving DecidableEq

/-- The errors of the session authority, by code. -/
inductive Refusal where
  | invalidInput (message : String)
  | resourceConflict (message : String)
  | registrationTransitionDenied (message : String)
  | actorAuthorizationDenied (message : String)
  | workspaceAuthorizationDenied (message : String)
  deriving DecidableEq

def denied : Refusal := .workspaceAuthorizationDenied "Session authorization was denied"

def trim (value : String) : String :=
  String.ofList (((value.toList.dropWhile Tasks.isWhitespace).reverse.dropWhile Tasks.isWhitespace).reverse)

def requireText (name : String) (max : ℕ) : Field → Except Refusal String
  | .text value =>
    if (trim value).isEmpty ∨ max < Tasks.utf16Length (trim value) then
      .error (.invalidInput (name ++ " must be a non-empty string of at most " ++ toString max ++ " characters"))
    else .ok (trim value)
  | _ => .error (.invalidInput (name ++ " must be a string"))

def optionalText (name : String) (max : ℕ) : Field → Except Refusal (Option String)
  | .absent => .ok none
  | value => (requireText name max value).map some

end Claxedo.Hosted
