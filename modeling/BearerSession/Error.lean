import BearerSession.Disk.Basic
import BearerSession.Json.Reader
import BearerSession.Number.Seconds
import BearerSession.Text.Utf8
import BearerSession.Validation
import BearerSession.Value.Display

/-!
# Errors

Errors of the session name their cause; the wording and the exit code of each follow from it.
Besides them a session meets the errors of its host: whatever a process, a listener or a response
raises.
-/

namespace BearerSession

/-- The kinds of errors of the session. -/
inductive ErrorKind where
  /-- Any error of the session. -/
  | session
  /-- An argument that is not acceptable. -/
  | invalidArgument
  /-- A call outside the life of the manager. -/
  | illegalState
  /-- A response that cannot be read. -/
  | ioFailure
  /-- An authorization that failed. -/
  | authorizationFailure
  /-- Durable storage that cannot be written. -/
  | storage
  /-- A configuration that is not acceptable. -/
  | config
  deriving DecidableEq, Repr

/-- The name under which a kind of error is reported. -/
def ErrorKind.name : ErrorKind → String
  | .session => "AuthSessionError"
  | .invalidArgument => "InvalidArgumentError"
  | .illegalState => "IllegalStateError"
  | .ioFailure => "IOFailureError"
  | .authorizationFailure => "AuthorizationFailure"
  | .storage => "StorageError"
  | .config => "ConfigError"

/-- The exit code of a command that ends with an error of this kind. -/
def ErrorKind.exitCode : ErrorKind → Int
  | .invalidArgument => 2
  | .authorizationFailure => 3
  | .ioFailure => 6
  | _ => 1

/-- Why an authorization failed. -/
inductive Failure where
  /-- The manager was closed. -/
  | closed
  /-- The attempt ended without an outcome. -/
  | abandoned
  /-- The process took longer than the attempt may last. -/
  | timedOut (limit : Binary64)
  /-- The caller waited longer than it wanted to. -/
  | unanswered (limit : Seconds)
  /-- What the process reported. -/
  | reported (message : String)
  /-- Another error, by its name and its text. -/
  | wrapped (name text : String)
  deriving DecidableEq, Repr

namespace Failure

/-- The message of a failure. An error without a text is shown by its name. -/
def message : Failure → String
  | .closed => "The authorization manager was closed"
  | .abandoned => "Authorization attempt was abandoned"
  | .timedOut limit => s!"Authorization process did not complete within {limit.text} seconds"
  | .unanswered limit => s!"No authorization outcome within {limit.text} seconds"
  | .reported message => message
  | .wrapped name text => if text.isEmpty then name else text

/-- The name of the error behind a failure. -/
def cause? : Failure → Option String
  | .wrapped name _ => some name
  | _ => none

end Failure

/-- An error of the session, by its cause. -/
inductive SessionError where
  /-- No policy was given. -/
  | nullPolicy
  /-- The text names no policy. -/
  | unknownPolicy (given : String)
  /-- A realm needs a name. -/
  | emptyRealm
  /-- A realm needs a listener. -/
  | nullRealmListener
  /-- An attempt needs a listener. -/
  | nullListener
  /-- The manager has no authorization process. -/
  | noProcess
  /-- The manager is closed. -/
  | managerClosed
  /-- No shared manager has been created. -/
  | noInstance
  /-- Status or headers of a response cannot be read. -/
  | unreadableResponse (detail : String)
  /-- The status of a response is no whole number. -/
  | noStatus
  /-- The memory backend refuses a write. -/
  | refusedWrite (operation key : String)
  /-- The session file cannot be written. -/
  | unwritableFile (path detail : String)
  /-- The cache directory took too long. -/
  | busyCache (key path : String)
  /-- The configuration file is not valid. -/
  | invalidConfig (path detail : String)
  /-- A setting names no policy. -/
  | invalidPolicy (given origin : String)
  /-- An override is not valid. -/
  | invalidOverride (detail : String)
  /-- A key leads through a setting that has no parts. -/
  | invalidKey (key : String)
  /-- A key names no setting. -/
  | unknownKey (key : String)
  /-- A setting does not take the value. -/
  | invalidValue (key detail : String)
  /-- A header has no name or no colon. -/
  | invalidHeader (raw : String)
  /-- An authorization failed. -/
  | failure (reason : Failure)
  /-- An error built by the host, perhaps with an exit code of its own. -/
  | reported (kind : ErrorKind) (message : String) (exitCode : Option Int)
  deriving DecidableEq, Repr

namespace SessionError

/-- The kind of an error. -/
def kind : SessionError → ErrorKind
  | .nullPolicy | .unknownPolicy _ | .emptyRealm | .nullRealmListener | .nullListener
  | .invalidKey _ | .unknownKey _ | .invalidValue .. | .invalidHeader _ => .invalidArgument
  | .noProcess | .managerClosed | .noInstance => .illegalState
  | .unreadableResponse _ | .noStatus => .ioFailure
  | .refusedWrite .. | .unwritableFile .. | .busyCache .. => .storage
  | .invalidConfig .. | .invalidPolicy .. | .invalidOverride _ => .config
  | .failure _ => .authorizationFailure
  | .reported kind .. => kind

/-- The message of an error. -/
def message : SessionError → String
  | .nullPolicy => "The policy argument cannot be null"
  | .unknownPolicy given => s!"Unknown persistence policy '{given}'; expected ALWAYS or NEVER"
  | .emptyRealm => "The realm name can't be null or empty."
  | .nullRealmListener => "The authentication listener object can't be null."
  | .nullListener => "The response listener can't be null."
  | .noProcess => "No authorization process is configured"
  | .managerClosed => "The authorization manager has been closed"
  | .noInstance => "get_instance can't be called before create_instance"
  | .unreadableResponse detail => s!"Cannot read response metadata: {detail}"
  | .noStatus => "Response has no readable status code"
  | .refusedWrite operation key => s!"{operation} {key}: disk full"
  | .unwritableFile path detail => s!"Cannot write session file {path}: {detail}"
  | .busyCache key path => s!"Timed out writing '{key}' to {path}"
  | .invalidConfig path detail => s!"Invalid config at {path}: {detail}"
  | .invalidPolicy given origin =>
    s!"Invalid persistence policy '{given}' ({origin}); expected ALWAYS or NEVER"
  | .invalidOverride detail => s!"Invalid configuration override: {detail}"
  | .invalidKey key => s!"Invalid config key: {key}"
  | .unknownKey key => s!"Unknown config key: {key}"
  | .invalidValue key detail => s!"Invalid value for {key}: {detail}"
  | .invalidHeader raw => s!"Invalid header '{raw}'; expected 'Name: value'"
  | .failure reason => reason.message
  | .reported _ message _ => message

/-- The exit code of a command that ends with an error. -/
def exitCode : SessionError → Int
  | .reported kind _ override => override.getD kind.exitCode
  | e => e.kind.exitCode

/-- The name of the error behind an error. -/
def cause? : SessionError → Option String
  | .failure reason => reason.cause?
  | _ => none

end SessionError

/-- The families of host errors that the session tells apart. -/
inductive ErrorFamily where
  /-- A value that is not acceptable. -/
  | value
  /-- A failure while running. -/
  | runtime
  /-- A failure of input or output. -/
  | inputOutput
  /-- A failure of an HTTP exchange. -/
  | transport
  /-- An attribute that is not there. -/
  | attribute
  /-- Any other ordinary error. -/
  | other
  /-- An error that ends the thread it is raised in, such as a cancellation. -/
  | fatal
  deriving DecidableEq, Repr

/-- An error raised by the host: by a process, a listener or a storage that is not the session's
own. Nothing is assumed of it, not even that it has a text. -/
structure HostError where
  /-- The name under which it is reported. -/
  name : String
  /-- Its family. -/
  family : ErrorFamily
  /-- Its text; none where it gives something else instead, so that asking for the text raises in
  turn. -/
  text : Option String
  deriving DecidableEq, Repr

/-- A value used for what it cannot be used for. -/
inductive Misuse where
  /-- A list or map as the key of a look-up. -/
  | key (typeName : String)
  /-- A value searched for a text that holds no parts. -/
  | container (typeName : String)
  /-- Bytes searched for a text. -/
  | bytesContainer
  /-- A value without parts taken apart. -/
  | parts (typeName : String)
  /-- A value of a header field that is no text. -/
  | field (typeName : String)
  /-- A value without headers given headers. -/
  | headers (typeName : String)
  /-- An identity that is no map. -/
  | identity (cell : String)
  /-- A value without a JSON form written as JSON. -/
  | unstorable (typeName : String)
  /-- The fields of a record replaced by a value that is no map. -/
  | fields (typeName : String)
  /-- The kind of a record replaced by a value. -/
  | kind (typeName : String)
  /-- A value of a type called as a function. -/
  | call (typeName : String)
  /-- An error without a text asked for its text. -/
  | mute
  deriving DecidableEq, Repr

/-- The wording of a misuse. -/
def Misuse.text : Misuse → String
  | .key typeName => s!"unhashable type: '{typeName}'"
  | .container typeName => s!"argument of type '{typeName}' is not iterable"
  | .bytesContainer => "a bytes-like object is required, not 'str'"
  | .parts typeName => s!"'{typeName}' object is not iterable"
  | .field typeName => s!"Header value must be str or bytes, not <class '{typeName}'>"
  | .headers typeName => s!"Cannot set headers on {typeName}"
  | .identity cell => s!"Identity cell '{cell}' expects a mapping"
  | .unstorable typeName => s!"Object of type {typeName} is not JSON serializable"
  | .fields typeName => s!"__dict__ must be set to a dictionary, not a '{typeName}'"
  | .kind typeName => s!"__class__ must be set to a class, not '{typeName}' object"
  | .call typeName => s!"'{typeName}' object is not callable"
  | .mute => "__str__ returned non-string (type NoneType)"

/-- Why a text cannot be shown. -/
inductive DisplayFault where
  /-- Its markup does not fit together. -/
  | markup (report : String)
  /-- The encoding of the output lacks one of its characters. -/
  | unprintable (report : String)
  deriving DecidableEq, Repr

/-- Whatever can be raised while a session is at work. -/
inductive Raised where
  /-- An error of the session. -/
  | session (e : SessionError)
  /-- A record that breaks its rules. -/
  | invalid (report : Validation.Report)
  /-- A value used for what it cannot be used for. -/
  | misuse (m : Misuse)
  /-- Bytes that are no UTF-8. -/
  | undecodable (fault : Text.Utf8.Fault)
  /-- A text that the encoding of header fields does not have. -/
  | unencodable
  /-- A record whose parts stand inside one another without end. -/
  | overnested
  /-- A text that is no JSON. -/
  | notJson (e : Json.ReadError)
  /-- A refusal of the disk. -/
  | disk (e : DiskError)
  /-- A cache directory whose database cannot be opened. -/
  | unopenedCache
  /-- A cache directory whose database has been in use for too long. -/
  | overdueCache
  /-- A text that cannot be shown. -/
  | unshown (fault : DisplayFault)
  /-- An outcome with both a result and an error, or with neither. -/
  | ambiguousOutcome
  /-- A home directory that cannot be found. -/
  | noHome
  /-- A wait that is too long to be waited. -/
  | overlongWait
  /-- A wait for what can never come. -/
  | deadlock
  /-- A name that nothing is known by. -/
  | unknownName (name : String)
  /-- An error of the host. -/
  | host (e : HostError)
  deriving DecidableEq, Repr

/-- The name under which a refusal of the disk is reported. -/
def DiskError.name : DiskError → String
  | .exists _ => "FileExistsError"
  | .notDirectory _ => "NotADirectoryError"
  | .directory _ | .isDirectory .. => "IsADirectoryError"
  | .busy .. => "OSError"
  | .missing _ => "FileNotFoundError"
  | .uncreated _ => "NotADirectoryError"
  | .device => "OSError"

namespace Raised

/-- The name under which an error is reported. -/
def name : Raised → String
  | .session e => e.kind.name
  | .invalid _ => "ValidationError"
  | .misuse _ => "TypeError"
  | .undecodable _ => "UnicodeDecodeError"
  | .unencodable => "UnicodeEncodeError"
  | .overnested => "ValueError"
  | .notJson (.malformed ..) => "JSONDecodeError"
  | .notJson (.tooManyDigits _) => "ValueError"
  | .notJson (.tooDeep _) => "RecursionError"
  | .disk e => e.name
  | .unopenedCache => "OperationalError"
  | .overdueCache => "Timeout"
  | .unshown (.markup _) => "MarkupError"
  | .unshown (.unprintable _) => "UnicodeEncodeError"
  | .ambiguousOutcome => "ValueError"
  | .noHome => "RuntimeError"
  | .overlongWait => "OverflowError"
  | .deadlock => "Deadlock"
  | .unknownName _ => "KeyError"
  | .host e => e.name

/-- The text of an error. Only errors of the host may have none. -/
def text? : Raised → Option String
  | .session e => some e.message
  | .invalid report => some report.text
  | .misuse m => some m.text
  | .undecodable fault => some fault.text
  | .unencodable => some "'ascii' codec can't encode characters: ordinal not in range(128)"
  | .overnested => some "Maximum serialization depth exceeded"
  | .notJson e => some e.text
  | .disk e => some e.text
  | .unopenedCache => some "unable to open database file"
  | .overdueCache => some ""
  | .unshown (.markup report) | .unshown (.unprintable report) => some report
  | .ambiguousOutcome => some "An outcome carries either a result or an error"
  | .noHome => some "Could not determine home directory."
  | .overlongWait => some "timeout value is too large"
  | .deadlock => some "nothing left to wait for"
  | .unknownName name => some (Text.literal name)
  | .host e => e.text

/-- The text of an error that has one. -/
def text (e : Raised) : String := e.text?.getD ""

/-- The family that an error counts to. -/
def family : Raised → ErrorFamily
  | .session e =>
    match e.kind with
    | .invalidArgument => .value
    | .illegalState => .runtime
    | .ioFailure => .inputOutput
    | _ => .other
  | .notJson (.tooDeep _) => .runtime
  | .invalid _ | .undecodable _ | .unencodable | .overnested | .notJson _ | .ambiguousOutcome
  | .unshown (.unprintable _) => .value
  | .disk _ => .inputOutput
  | .noHome => .runtime
  | .misuse _ | .unopenedCache | .overdueCache | .unshown (.markup _) | .overlongWait | .deadlock
  | .unknownName _ => .other
  | .host e => e.family

/-- An ordinary error: one that does not end the thread it is raised in. -/
def isOrdinary (e : Raised) : Bool := e.family != .fatal

/-- An error that a failure can be made of: it is ordinary and has a text. -/
def isReportable (e : Raised) : Bool := e.isOrdinary && e.text?.isSome

/-- The error for an attribute that a value of a type does not have. -/
def noAttribute (typeName name : String) : Raised :=
  .host ⟨"AttributeError", .attribute, some s!"'{typeName}' object has no attribute '{name}'"⟩

/-- The error for a name of a header field that is no text. -/
def unencodableName (typeName : String) : Raised := noAttribute typeName "encode"

/-- The failure that an error with a text amounts to. Failures stay what they are. -/
def toFailure : Raised → Failure
  | .session (.failure reason) => reason
  | .session (.reported .authorizationFailure message _) => .reported message
  | e => .wrapped e.name e.text

end Raised

end BearerSession
