import BitTorrent.Fault

/-!
Failures of the operating system that arrive with a condition and a text, and how they are reported:
a full or forbidden device concerns the whole torrent, everything else only the operation.
-/

set_option autoImplicit false

namespace BitTorrent

/-- The condition that the operating system names. -/
inductive SystemCondition where
  | addressInUse
  | addressNotAvailable
  | alreadyExists
  | argumentListTooLong
  | brokenPipe
  | connectionAborted
  | connectionRefused
  | connectionReset
  | crossesDevices
  | deadlock
  | directoryNotEmpty
  | executableFileBusy
  | fileTooLarge
  | hostUnreachable
  | interrupted
  | invalidData
  | invalidFilename
  | invalidInput
  | isADirectory
  | networkDown
  | networkUnreachable
  | notADirectory
  | notConnected
  | notFound
  | notSeekable
  | other
  | outOfMemory
  | permissionDenied
  | quotaExceeded
  | readOnlyFilesystem
  | resourceBusy
  | staleNetworkFileHandle
  | storageFull
  | timedOut
  | tooManyLinks
  | unexpectedEof
  | unsupported
  | wouldBlock
  | writeZero
  deriving DecidableEq, Repr

namespace SystemCondition

def text : SystemCondition → String
  | addressInUse => "address in use"
  | addressNotAvailable => "address not available"
  | alreadyExists => "entity already exists"
  | argumentListTooLong => "argument list too long"
  | brokenPipe => "broken pipe"
  | connectionAborted => "connection aborted"
  | connectionRefused => "connection refused"
  | connectionReset => "connection reset"
  | crossesDevices => "cross-device link or rename"
  | deadlock => "deadlock"
  | directoryNotEmpty => "directory not empty"
  | executableFileBusy => "executable file busy"
  | fileTooLarge => "file too large"
  | hostUnreachable => "host unreachable"
  | interrupted => "operation interrupted"
  | invalidData => "invalid data"
  | invalidFilename => "invalid filename"
  | invalidInput => "invalid input parameter"
  | isADirectory => "is a directory"
  | networkDown => "network down"
  | networkUnreachable => "network unreachable"
  | notADirectory => "not a directory"
  | notConnected => "not connected"
  | notFound => "entity not found"
  | notSeekable => "seek on unseekable file"
  | other => "other error"
  | outOfMemory => "out of memory"
  | permissionDenied => "permission denied"
  | quotaExceeded => "quota exceeded"
  | readOnlyFilesystem => "read-only filesystem or storage medium"
  | resourceBusy => "resource busy"
  | staleNetworkFileHandle => "stale network file handle"
  | storageFull => "no storage space"
  | timedOut => "timed out"
  | tooManyLinks => "too many links"
  | unexpectedEof => "unexpected end of file"
  | unsupported => "unsupported"
  | wouldBlock => "operation would block"
  | writeZero => "write zero"

/-- The conditions by their names. -/
def named : List (String × SystemCondition) :=
  [("AddrInUse", addressInUse), ("AddrNotAvailable", addressNotAvailable),
    ("AlreadyExists", alreadyExists), ("ArgumentListTooLong", argumentListTooLong),
    ("BrokenPipe", brokenPipe), ("ConnectionAborted", connectionAborted),
    ("ConnectionRefused", connectionRefused), ("ConnectionReset", connectionReset),
    ("CrossesDevices", crossesDevices), ("Deadlock", deadlock),
    ("DirectoryNotEmpty", directoryNotEmpty), ("ExecutableFileBusy", executableFileBusy),
    ("FileTooLarge", fileTooLarge), ("HostUnreachable", hostUnreachable),
    ("Interrupted", interrupted), ("InvalidData", invalidData),
    ("InvalidFilename", invalidFilename), ("InvalidInput", invalidInput),
    ("IsADirectory", isADirectory), ("NetworkDown", networkDown),
    ("NetworkUnreachable", networkUnreachable), ("NotADirectory", notADirectory),
    ("NotConnected", notConnected), ("NotFound", notFound), ("NotSeekable", notSeekable),
    ("Other", other), ("OutOfMemory", outOfMemory), ("PermissionDenied", permissionDenied),
    ("QuotaExceeded", quotaExceeded), ("ReadOnlyFilesystem", readOnlyFilesystem),
    ("ResourceBusy", resourceBusy), ("StaleNetworkFileHandle", staleNetworkFileHandle),
    ("StorageFull", storageFull), ("TimedOut", timedOut), ("TooManyLinks", tooManyLinks),
    ("UnexpectedEof", unexpectedEof), ("Unsupported", unsupported), ("WouldBlock", wouldBlock),
    ("WriteZero", writeZero)]

/-- The condition with a given name. -/
def ofName? (name : String) : Option SystemCondition :=
  named.lookup name

/-- The report of a failure that the operating system words as `message`. -/
def report (condition : SystemCondition) (message : String) : Report :=
  match condition with
  | storageFull | permissionDenied =>
    ⟨.storage true, "Storage unavailable", none, some message⟩
  | _ => ⟨.storage false, message, none, some condition.text⟩

end SystemCondition

end BitTorrent
