import BitTorrent.Address
import BitTorrent.Layout

/-!
What can go wrong, by cause, and the report that each cause is worded as. A report names its kind,
a message and, in parentheses, what it is about and where it came from.
-/

set_option autoImplicit false

namespace BitTorrent

/-- The area that a report belongs to. A storage report may concern the whole torrent. -/
inductive ReportKind where
  | parse
  | protocol
  | peer
  | storage (torrentWide : Bool)
  | integrity
  | config
  | network
  | validation
  deriving DecidableEq, Repr

namespace ReportKind

def label : ReportKind → String
  | parse => "Parse error"
  | protocol => "Protocol error"
  | peer => "Peer error"
  | storage false => "Storage error"
  | storage true => "Storage unavailable"
  | integrity => "Integrity error"
  | config => "Config error"
  | network => "Network error"
  | validation => "Validation error"

/-- The word for what a report of this kind is about. -/
def subjectLabel? : ReportKind → Option String
  | parse | protocol => none
  | peer => some "peer"
  | storage _ => some "range"
  | integrity => some "piece"
  | config | validation => some "field"
  | network => some "address"

/-- Whether reports of this kind name a source. -/
def hasSource : ReportKind → Bool
  | parse | protocol | peer | storage _ | network => true
  | integrity | config | validation => false

end ReportKind

/-- The wording of a fault. -/
structure Report where
  kind : ReportKind
  message : String
  subject : Option String := none
  source : Option String := none
  deriving DecidableEq, Repr

namespace Report

/-- The labelled details in the order in which they are written. -/
def details (report : Report) : List String :=
  (match report.kind.subjectLabel?, report.subject with
    | some label, some subject => [label ++ ": " ++ subject]
    | _, _ => []) ++
  (match report.kind.hasSource, report.source with
    | true, some source => ["source: " ++ source]
    | _, _ => [])

def text (report : Report) : String :=
  let details := report.details
  let tail := if details.isEmpty then "" else " (" ++ ", ".intercalate details ++ ")"
  report.kind.label ++ ": " ++ report.message ++ tail

/-- Appends a context to the source, for kinds that have one. -/
def addContext (report : Report) (context : String) : Report :=
  if report.kind.hasSource then
    { report with source := some (match report.source with
      | some source => source ++ ": " ++ context
      | none => context) }
  else report

/-- Whether the peer broke the protocol. -/
def isViolation (report : Report) : Bool :=
  report.kind = .protocol

/-- Whether every peer of the torrent is affected. -/
def isTorrentWide (report : Report) : Bool :=
  report.kind = .storage true

end Report

/-- How a device or the operating system refuses an operation. -/
inductive DeviceError where
  | notFound
  | notDirectory
  | isDirectory
  | exists_
  | denied
  | full
  | nameTooLong
  | nulInName
  | endedEarly
  | notText
  deriving DecidableEq, Repr

namespace DeviceError

def text : DeviceError → String
  | notFound => "No such file or directory (os error 2)"
  | notDirectory => "Not a directory (os error 20)"
  | isDirectory => "Is a directory (os error 21)"
  | exists_ => "File exists (os error 17)"
  | denied => "Permission denied (os error 13)"
  | full => "No space left on device (os error 28)"
  | nameTooLong => "File name too long (os error 36)"
  | nulInName => "file name contained an unexpected NUL byte"
  | endedEarly => "early eof"
  | notText => "stream did not contain valid UTF-8"

/-- A full or forbidden device affects every peer of the torrent. -/
def isTorrentWide : DeviceError → Bool
  | denied | full => true
  | _ => false

end DeviceError

/-- A peer that breaks the protocol. -/
inductive Violation where
  | unknownOpcode (value : Nat)
  | malformedFrame (message : String) (atLeast : Bool) (expected got : Nat)
  | handshakeSize (got : Nat)
  | protocolLength (got : Nat)
  | handshakeLead (got : Nat)
  | protocolName
  | frameTooLarge (length limit : Nat)
  | bitfieldSize (expected got : Nat)
  | beforeHandshake (peer : Address)
  | haveOutOfRange (piece count : Nat)
  | duplicateUpload (request outstanding : BlockRequest)
  | badRequest (reason : String) (request : BlockRequest)
  | unservable (request : BlockRequest)
  | unknownPiece (request : BlockRequest)
  | outsidePiece (request : BlockRequest)
  | otherTorrent (hash : Digest)
  | unknownTorrent (hash : Digest)
  deriving DecidableEq, Repr

/-- A connection that cannot be made, kept or used. -/
inductive PeerFault where
  | alreadyConnected (peer : Address)
  | limitReached (limit : Nat) (peer : Address)
  | notConnected (peer : Address)
  | unitExited (peer : Address)
  | isSelf (peer : Address)
  | cannotRequest (request : BlockRequest) (peer : Address)
  | readerStopped (peer : Address)
  deriving DecidableEq, Repr

/-- Bytes that cannot be stored or read back. -/
inductive StoreFault where
  | beyondStore (size : Nat) (range : ByteRange)
  | beyondFiles (size : Nat) (range : ByteRange)
  | dataLength (range : ByteRange)
  | dataLengthGot (got : Nat) (range : ByteRange)
  | unwritten (range : ByteRange)
  | device (operation : String) (path : String) (cause : DeviceError)
  deriving DecidableEq, Repr

/-- Settings that cannot be read or used. -/
inductive SettingsFault where
  | unknownPolicy (text : String)
  | unknownCorruptionPolicy (text : String)
  | unreadable (path : String) (cause : DeviceError)
  | notJson
  | zeroCount (field : String)
  | zeroTimeout
  | notPositive (field : String)
  | idleTooShort
  | frameTooSmall
  deriving DecidableEq, Repr

/-- Metadata that cannot be read. -/
inductive MetainfoFault where
  | notBencode
  | rootNotDictionary
  | missingInfo
  | infoNotDictionary
  | badField (key : String)
  | badPieceLength (value : Int)
  | hashesLength (got : Nat)
  | fileNotDictionary
  | missingPath
  | pathNotText
  | negativeLength (value : Int)
  | unreadable (path : String) (cause : DeviceError)
  deriving DecidableEq, Repr

/-- Metadata whose pieces and files do not tile the same bytes. -/
inductive LayoutFault where
  | zeroPieceLength
  | pieceCount (expected total listed : Nat)
  | fileGap (path : String) (start expected : Nat)
  | coverage (covered total : Nat)
  | emptyPiece
  deriving DecidableEq, Repr

/-- A torrent that is registered twice or not at all. -/
inductive RegistryFault where
  | alreadyRegistered (hash : Digest)
  | unknownTorrent (hash : Digest)
  deriving DecidableEq, Repr

/-- A network that does not answer in time or cannot be addressed. -/
inductive NetworkFault where
  | handshakeTimedOut (peer : Address)
  | cannotConnect (peer : Address) (reason : String)
  | cannotListen (address : Address) (reason : String)
  | badAddress
  | timedOut
  deriving DecidableEq, Repr

/-- A fault by its cause; `reported` is one that arrives in words. -/
inductive Fault where
  | violation (cause : Violation)
  | peer (cause : PeerFault)
  | store (cause : StoreFault)
  | settings (cause : SettingsFault)
  | metainfo (cause : MetainfoFault)
  | layout (cause : LayoutFault)
  | registry (cause : RegistryFault)
  | network (cause : NetworkFault)
  | reported (report : Report)
  deriving DecidableEq, Repr

def Violation.report (violation : Violation) : Report :=
  let say (message : String) (source : String) : Report := ⟨.protocol, message, none, some source⟩
  match violation with
  | unknownOpcode value => say "Unknown message opcode" s!"value: {value}"
  | malformedFrame message atLeast expected got =>
    let least := if atLeast then "at least " else ""
    say s!"Malformed {message} frame" s!"expected {least}{expected} bytes, got {got}"
  | handshakeSize got => say "Handshake has wrong size" s!"expected 68 bytes, got {got}"
  | protocolLength got => say "Invalid protocol length" s!"expected 19, got {got}"
  | handshakeLead got => say "Invalid protocol length" s!"got {got}"
  | protocolName => ⟨.protocol, "Invalid protocol string", none, none⟩
  | frameTooLarge length limit => say "Frame too large" s!"{length} > {limit}"
  | bitfieldSize expected got =>
    say "Bitfield has wrong length" s!"expected {expected} bytes, got {got}"
  | beforeHandshake peer => say "Message received before handshake" peer.text
  | haveOutOfRange piece count => say "Have for piece out of range" s!"piece {piece} of {count}"
  | duplicateUpload request outstanding =>
    say "Duplicate outstanding upload request" (request.text ++ " while " ++ outstanding.text)
  | badRequest reason request => say s!"Invalid request: {reason}" request.text
  | unservable request => say "Invalid request" request.text
  | unknownPiece request => say "Block for unknown piece" request.text
  | outsidePiece request => say "Block outside piece" request.text
  | otherTorrent hash => say "Info hash mismatch" (Bytes.hex hash.toList)
  | unknownTorrent hash => say "Unknown info hash" (Bytes.hex hash.toList)

def PeerFault.report (fault : PeerFault) : Report :=
  let say (message : String) (peer : Address) : Report := ⟨.peer, message, some peer.text, none⟩
  match fault with
  | alreadyConnected peer => say "Peer already connected" peer
  | limitReached limit peer => say s!"Connection limit of {limit} reached" peer
  | notConnected peer => say "Peer is not connected" peer
  | unitExited peer => say "Peer unit has exited" peer
  | isSelf peer => say "Connected to self" peer
  | cannotRequest request peer =>
    say ("Cannot request " ++ request.text ++ ": choked or pipeline full") peer
  | readerStopped peer => say "Reader stopped" peer

def StoreFault.report (fault : StoreFault) : Report :=
  let say (message : String) (range : ByteRange) : Report :=
    ⟨.storage false, message, some range.text, none⟩
  match fault with
  | beyondStore size range => say s!"Range beyond end of storage ({size} bytes)" range
  | beyondFiles size range => say s!"Range beyond end of torrent ({size} bytes)" range
  | dataLength range => say "Data length does not match range" range
  | dataLengthGot got range => say s!"Data length {got} does not match range" range
  | unwritten range => say "Range has no stored data" range
  | device operation path cause =>
    if cause.isTorrentWide then
      ⟨.storage true, operation ++ " '" ++ path ++ "'", none, some cause.text⟩
    else ⟨.storage false, operation, some path, some cause.text⟩

def SettingsFault.report (fault : SettingsFault) : Report :=
  let say (message field : String) : Report := ⟨.config, message, some field, none⟩
  match fault with
  | unknownPolicy text => say s!"Unknown piece policy '{text}'" "piece_policy"
  | unknownCorruptionPolicy text => say s!"Unknown corruption policy '{text}'" "corruption_policy"
  | unreadable path cause => ⟨.config, "Failed to read " ++ path ++ ": " ++ cause.text, none, none⟩
  | notJson => ⟨.config, "Failed to parse JSON configuration", none, none⟩
  | zeroCount field => say "must be at least 1" field
  | zeroTimeout => say "timeouts must be positive" "connect_timeout_secs"
  | notPositive field => say "must be positive" field
  | idleTooShort => say "must exceed keepalive_interval_secs" "idle_timeout_secs"
  | frameTooSmall => say s!"must hold at least one {blockSize} byte block" "max_frame_length"

def MetainfoFault.report (fault : MetainfoFault) : Report :=
  let say (message : String) : Report := ⟨.parse, message, none, none⟩
  let cite (message source : String) : Report := ⟨.parse, message, none, some source⟩
  match fault with
  | notBencode => say "Failed to parse bencode data"
  | rootNotDictionary => say "Root must be a dictionary"
  | missingInfo => say "Missing info dictionary"
  | infoNotDictionary => say "Info must be a dictionary"
  | badField key => say s!"Missing or invalid '{key}' field"
  | badPieceLength value => cite "Invalid piece length" (toString value)
  | hashesLength got => cite "Pieces field length must be a multiple of 20" s!"got {got}"
  | fileNotDictionary => say "File entry must be a dictionary"
  | missingPath => say "Missing file path"
  | pathNotText => say "Path component must be a string"
  | negativeLength value => cite "Negative length" (toString value)
  | unreadable path cause => cite ("Failed to read " ++ path) cause.text

def LayoutFault.report (fault : LayoutFault) : Report :=
  let say (message field : String) : Report := ⟨.validation, message, some field, none⟩
  match fault with
  | zeroPieceLength => say "Piece length must be positive" "piece_length"
  | pieceCount expected total listed =>
    say s!"Expected {expected} pieces for {total} bytes, metadata lists {listed}" "pieces"
  | fileGap path start expected =>
    say ("File " ++ path ++ s!" starts at {start} but previous file ends at {expected}") "files"
  | coverage covered total => say s!"Files cover {covered} bytes, torrent has {total}" "files"
  | emptyPiece => say "Empty piece in layout" "pieces"

def RegistryFault.report (fault : RegistryFault) : Report :=
  let say (message : String) : Report := ⟨.validation, message, some "info_hash", none⟩
  match fault with
  | alreadyRegistered hash => say ("Torrent " ++ Bytes.hex hash.toList ++ " already registered")
  | unknownTorrent hash => say ("Unknown torrent " ++ Bytes.hex hash.toList)

def NetworkFault.report : NetworkFault → Report
  | handshakeTimedOut peer => ⟨.network, "Handshake timed out", some peer.text, none⟩
  | cannotConnect peer reason => ⟨.network, "Failed to connect", some peer.text, some reason⟩
  | cannotListen address reason =>
    ⟨.network, "Failed to bind listener", some address.text, some reason⟩
  | badAddress =>
    ⟨.network, "Failed to parse address", some "unknown", some "invalid socket address syntax"⟩
  | timedOut => ⟨.network, "Operation timed out", none, none⟩

/-- The wording of a fault. -/
def Fault.report : Fault → Report
  | violation cause => cause.report
  | peer cause => cause.report
  | store cause => cause.report
  | settings cause => cause.report
  | metainfo cause => cause.report
  | layout cause => cause.report
  | registry cause => cause.report
  | network cause => cause.report
  | reported report => report

def Fault.isTorrentWide (fault : Fault) : Bool :=
  fault.report.isTorrentWide

/-- How a byte stream ends or fails. -/
inductive StreamEnd where
  | endOfStream
  | brokenPipe
  deriving DecidableEq, Repr

/-- Why an operation has no result: a fault, a failing stream, or a call outside its contract. -/
inductive Failure where
  | fault (fault : Fault)
  | stream (cause : StreamEnd)
  | refused
  deriving DecidableEq, Repr

end BitTorrent
