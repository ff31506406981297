/-!
# Errors

Everything that can go wrong, by its cause. `Error.kind` sorts the causes into a
few kinds and `Error.message` words them; the wording is part of what the library
promises. Only an error in a rule's expression is harmless: the rule is passed
over. Every other error ends the run.
-/

namespace Crosswalk

inductive Error where
  | emptyPath
  | malformedSegment (path segment : String)
  | earlyMarker (path segment : String)
  /-- The document to write into is neither an object nor null. -/
  | rootNotObject (path : String)
  | segmentNotObject (path segment : String)
  | scalarToArray (path : String)
  /-- A list or repeatable value for a path without an array marker. -/
  | arrayToScalar (kind path : String)
  | notAnArray (path : String)
  | unterminatedQuote (text : String)
  | malformedLiteral (token : String)
  | positionTooLarge (token : String)
  | positionNotAscii (token : String)
  | emptyRange (token : String)
  | unrecognizedToken (token : String)
  /-- A byte range on a field that has no byte positions. -/
  | rangeOnDataField (tag : String)
  | unknownZone (name : String)
  | recordNotObject
  | recordWithoutFields
  | fieldNotObject
  | fieldContent (tag : String)
  | unreadableProfile
  | unreadableParameters
  | unreadableJson
  | unreadableFile
  deriving DecidableEq, Repr, Inhabited

namespace Error

inductive Kind where
  | path
  | typeMismatch
  | expression
  | zone
  | record
  | profile
  | parameters
  | json
  | io
  deriving DecidableEq, Repr, Inhabited

def kind : Error → Kind
  | emptyPath | malformedSegment .. | earlyMarker .. => .path
  | rootNotObject _ | segmentNotObject .. | scalarToArray _ | arrayToScalar .. | notAnArray _ =>
    .typeMismatch
  | unterminatedQuote _ | malformedLiteral _ | positionTooLarge _ | positionNotAscii _
  | emptyRange _ | unrecognizedToken _ | rangeOnDataField _ => .expression
  | unknownZone _ => .zone
  | recordNotObject | recordWithoutFields | fieldNotObject | fieldContent _ => .record
  | unreadableProfile => .profile
  | unreadableParameters => .parameters
  | unreadableJson => .json
  | unreadableFile => .io

def fatal (e : Error) : Bool := e.kind != .expression

def detail : Error → String
  | emptyPath => "empty path"
  | malformedSegment path segment => path ++ ": malformed segment '" ++ segment ++ "'"
  | earlyMarker path segment =>
    path ++ ": array marker on non-terminal segment '" ++ segment ++ "'"
  | rootNotObject path => path ++ ": document root is not an object"
  | segmentNotObject path segment => path ++ ": '" ++ segment ++ "' is not an object"
  | scalarToArray path => "cannot write a scalar to array path " ++ path
  | arrayToScalar kind path => "cannot write a " ++ kind ++ " value to non-array path " ++ path
  | notAnArray path => path ++ " holds a non-array value"
  | unterminatedQuote text => "unterminated quote in '" ++ text ++ "'"
  | malformedLiteral token => "malformed literal " ++ token
  | positionTooLarge token => token ++ ": number too large to fit in target type"
  | positionNotAscii token => token ++ ": invalid digit found in string"
  | emptyRange token => "empty byte range " ++ token
  | unrecognizedToken token => "unrecognized token '" ++ token ++ "'"
  | rangeOnDataField tag => "byte range on data field " ++ tag
  | unknownZone name => name ++ ": failed to parse timezone"
  | recordNotObject => "Expected JSON object"
  | recordWithoutFields => "Missing fields array"
  | fieldNotObject => "Field must be object"
  | fieldContent tag => "Field " ++ tag ++ " must be a string or an object"
  | unreadableProfile | unreadableParameters | unreadableJson | unreadableFile => ""

def Kind.label : Kind → String
  | path => "Invalid path"
  | typeMismatch => "Type mismatch"
  | expression => "Invalid expression"
  | zone => "Invalid timezone"
  | record => "Invalid record"
  | profile => "Invalid profile"
  | parameters => "Invalid parameters"
  | json => "JSON error"
  | io => "IO error"

def message (e : Error) : String := e.kind.label ++ ": " ++ e.detail

end Error

end Crosswalk
