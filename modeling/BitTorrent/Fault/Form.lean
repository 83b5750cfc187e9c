import BitTorrent.Fault

/-! Reports made from words: a form names the kind and says which arguments are the details. -/

set_option autoImplicit false

namespace BitTorrent

/-- A kind of report, and the numbers of the arguments that are its subject and its source. -/
structure ReportForm where
  kind : ReportKind
  subject : Option Nat := none
  source : Option Nat := none

namespace ReportForm

/-- The forms by name. -/
def named : List (String × ReportForm) :=
  [("parse_error", { kind := .parse }),
    ("parse_error_with_source", { kind := .parse, source := some 1 }),
    ("protocol_error", { kind := .protocol }),
    ("protocol_error_with_source", { kind := .protocol, source := some 1 }),
    ("peer_error", { kind := .peer }),
    ("peer_error_with_peer", { kind := .peer, subject := some 1 }),
    ("peer_error_full", { kind := .peer, subject := some 1, source := some 2 }),
    ("storage_error", { kind := .storage false }),
    ("storage_error_with_range", { kind := .storage false, subject := some 1 }),
    ("storage_error_full", { kind := .storage false, subject := some 1, source := some 2 }),
    ("storage_unavailable", { kind := .storage true, source := some 1 }),
    ("config_error", { kind := .config }),
    ("config_error_with_field", { kind := .config, subject := some 1 }),
    ("network_error", { kind := .network }),
    ("network_error_with_address", { kind := .network, subject := some 1 }),
    ("network_error_full", { kind := .network, subject := some 1, source := some 2 }),
    ("validation_error", { kind := .validation }),
    ("validation_error_with_field", { kind := .validation, subject := some 1 })]

end ReportForm

/-- The report of a form; the first argument is the message. Without a form it is about the
integrity of a piece. -/
def Report.ofForm (form : String) (arguments : List String) (piece : Nat) : Report :=
  match ReportForm.named.lookup form with
  | some shape => ⟨shape.kind, arguments.headD "", shape.subject.bind (arguments[·]?),
      shape.source.bind (arguments[·]?)⟩
  | none => ⟨.integrity, arguments.headD "", some (toString piece), none⟩

end BitTorrent
