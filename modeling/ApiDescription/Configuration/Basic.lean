import ApiDescription.AccessPolicy
import ApiDescription.Vocabulary

/-!
# Configurations

The access policy of a run and its vocabulary. A run needs a policy, and there is no default one.
-/

namespace ApiDescription

/-- Why a file could not be read. -/
inductive ReadFailure where
  /-- Nothing of that name exists. -/
  | absent
  /-- The name is that of a directory. -/
  | isDirectory
  /-- A part of the path that is no directory has something below it. -/
  | notDirectory
  /-- A name is longer than a file system allows. -/
  | nameTooLong
  /-- The path holds the character U+0000. -/
  | nulInName
deriving DecidableEq, Repr

/-- The text of a failure. -/
def ReadFailure.message : ReadFailure → String
  | .absent => "No such file or directory (os error 2)"
  | .isDirectory => "Is a directory (os error 21)"
  | .notDirectory => "Not a directory (os error 20)"
  | .nameTooLong => "File name too long (os error 36)"
  | .nulInName => "file name contained an unexpected NUL byte"

/-- What may be wrong with a configuration. -/
inductive ConfigError where
  | missingAccessPolicy
  | unknownAccessPolicy (text : String)
  /-- The file of the configuration cannot be read. -/
  | unreadable (path : String) (reason : ReadFailure)
  /-- The text is no configuration. -/
  | malformed
deriving DecidableEq, Repr

/-- The text of an error. -/
def ConfigError.message : ConfigError → String
  | .missingAccessPolicy => "an access policy must be specified"
  | .unknownAccessPolicy text =>
    "unknown access policy \x60" ++ text ++
      "\x60 (expected NONE, PROPERTY, FIELD or PUBLIC_MEMBER)"
  | .unreadable path reason => "failed to read " ++ path ++ ": " ++ reason.message
  | .malformed => "invalid configuration"

/-- The policy that a text names, read leniently. -/
def AccessPolicy.parse (text : String) : Except ConfigError AccessPolicy :=
  match parse? text with
  | some policy => .ok policy
  | none => .error (.unknownAccessPolicy text)

/-- What a run is configured by. -/
structure Configuration where
  accessPolicy : Option AccessPolicy := none
  vocabulary : Vocabulary := {}
deriving DecidableEq, Repr

namespace Configuration

/-- The policy of the run, or the error that there is none. -/
def policy (config : Configuration) : Except ConfigError AccessPolicy :=
  match config.accessPolicy with
  | some policy => .ok policy
  | none => .error .missingAccessPolicy

end Configuration

end ApiDescription
