import Uci.Document.Replay
import Uci.File.Configuration

/-!
# Errors

Everything that can go wrong with a configuration, from its file to a node of its
document. Errors are classed into nine kinds; every kind has a number and a
description that stay the same from version to version.

* `Error`, `Error.message` — errors, and what they say.
* `ErrorKind`, `Error.kind` — the kinds.
-/

namespace Uci

/-- **Error**: a refusal of a document, a text that is none, or a file that cannot be
used. -/
inductive Error where
  | refusal (cause : Refusal)
  | parse (cause : ParseError)
  | file (cause : FileError)
  deriving DecidableEq, Repr

/-- **Kind** of an error. -/
inductive ErrorKind where
  | misuse
  | fileNotFound
  | fileFailure
  | parse
  | absence
  | mismatch
  | attributeMissing
  | duplicate
  | endOfWalk
  deriving DecidableEq, Repr

namespace ErrorKind

/-- The number of a kind. -/
def code : ErrorKind → Int
  | misuse => -1
  | fileNotFound => -2
  | fileFailure => -3
  | parse => -4
  | absence => -5
  | mismatch => -6
  | attributeMissing => -7
  | duplicate => -8
  | endOfWalk => -9

/-- The description of a kind. -/
def description : ErrorKind → String
  | misuse => "Invalid argument"
  | fileNotFound => "File not found"
  | fileFailure => "File I/O error"
  | parse => "Parser error"
  | absence => "Node not found"
  | mismatch => "Node type mismatch"
  | attributeMissing => "Node attribute missing"
  | duplicate => "Node name already exists"
  | endOfWalk => "Iterator reached the end"

end ErrorKind

/-- The kind of a refusal. -/
def Refusal.kind : Refusal → ErrorKind
  | misuse _ => .misuse
  | absence _ => .absence
  | mismatch _ => .mismatch
  | attributeMissing _ => .attributeMissing
  | duplicate _ _ => .duplicate
  | endOfWalk => .endOfWalk

/-- The kind of a file error: a file that is missing is a kind of its own. -/
def FileError.kind : FileError → ErrorKind
  | notFound _ => .fileNotFound
  | notAFile _ | failed _ _ => .fileFailure

namespace Error

/-- The kind of an error. -/
def kind : Error → ErrorKind
  | refusal cause => cause.kind
  | parse _ => .parse
  | file cause => cause.kind

/-- **The words for an error.** -/
def message : Error → String
  | refusal cause => cause.message
  | parse cause => s!"Parser error: {cause.message}"
  | file cause => cause.message

/-- What an error says to a person, with the cause behind it where that is an error of
its own. -/
def chain : Error → List String
  | refusal cause => [cause.message]
  | parse cause => [s!"Parser error: {cause.message}", cause.message]
  | file (.failed path reason) => [(FileError.failed path reason).message, reason.message]
  | file cause => [cause.message]

end Error
end Uci
