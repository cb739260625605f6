import NameResolution.Diagnostic.Queue
import NameResolution.Symbol

/-!
# Reporting

A reporter decides where diagnostics go: to a sink, into buffers, out of the computation, or to a
check. Reporters are handles; the buffers and sinks they refer to are in `Channels`, so that two
handles on the same buffers see the same reports.
-/

namespace NameResolution

/-- A diagnostic and the declaration it was reported for. -/
structure Reported where
  diagnostic : Diagnostic
  site : SymbolId
deriving DecidableEq, Repr

/-- Raised where errors end a computation: the error that did. -/
structure Abort where
  diagnostic : Diagnostic
deriving DecidableEq, Repr

def Abort.message (abort : Abort) : String := s!"resolution aborted: {abort.diagnostic.text}"

inductive Sink where
  /-- Keeps everything in order of arrival. -/
  | log (entries : List Reported)
  | queue (q : DiagnosticQueue)
deriving Repr

def Sink.receive (report : Reported) : Sink → Sink
  | .log entries => .log (entries ++ [report])
  | .queue q => .queue (q.add report.diagnostic).2

/-- Reports in order of first arrival without repetitions; none while there are none to keep. -/
abbrev Buffer := Option (List Reported)

namespace Buffer

/-- Adds a report unless it is there already. -/
def add (buffer : Buffer) (report : Reported) : Buffer :=
  match buffer with
  | none => some [report]
  | some reports => some (if reports.contains report then reports else reports ++ [report])

/-- Adds reports in order to a buffer, which is there afterwards. -/
def addAll (buffer : Buffer) (reports : List Reported) : Buffer :=
  reports.foldl add (some (buffer.getD []))

/-- Keeps the reports that pass a test, and no buffer if none does. -/
def retain (buffer : Buffer) (keep : Reported → Bool) : Buffer :=
  match buffer with
  | none => none
  | some reports =>
    match reports.filter keep with
    | [] => none
    | kept => some kept

end Buffer

/-- The two buffers that reporters share. -/
structure Buffers where
  errors : Buffer := none
  warnings : Buffer := none
deriving DecidableEq, Repr

abbrev BufferId := Nat

abbrev SinkId := Nat

/-- All buffers and sinks, and what was handed to checks. -/
structure Channels where
  buffers : Array Buffers := #[]
  sinks : Array Sink := #[]
  checked : List Diagnostic := []
deriving Repr

namespace Channels

def buffersAt (channels : Channels) (id : BufferId) : Buffers := channels.buffers[id]?.getD {}

def modifyBuffers (channels : Channels) (id : BufferId) (change : Buffers → Buffers) : Channels :=
  { channels with buffers := channels.buffers.modify id change }

def addBuffers (channels : Channels) : BufferId × Channels :=
  (channels.buffers.size, { channels with buffers := channels.buffers.push {} })

def addSink (channels : Channels) (sink : Sink) : SinkId × Channels :=
  (channels.sinks.size, { channels with sinks := channels.sinks.push sink })

def emit (channels : Channels) (sink : SinkId) (report : Reported) : Channels :=
  { channels with sinks := channels.sinks.modify sink (Sink.receive report) }

def emitAll (channels : Channels) (sink : SinkId) (reports : List Reported) : Channels :=
  reports.foldl (fun channels report => channels.emit sink report) channels

/-- Takes everything out of a sink that keeps a log. -/
def drainLog (channels : Channels) (sink : SinkId) : List Reported × Channels :=
  match channels.sinks[sink]? with
  | some (.log entries) =>
    (entries, { channels with sinks := channels.sinks.modify sink fun _ => .log [] })
  | _ => ([], channels)

def drainChecked (channels : Channels) : List Diagnostic × Channels :=
  (channels.checked, { channels with checked := [] })

end Channels

/-- What a reporter does with an error. -/
inductive ReporterKind where
  /-- Sends it to the sink. -/
  | immediate
  /-- Keeps it in a buffer. -/
  | buffering
  /-- Abandons the computation. -/
  | throwing
  /-- Hands it to a check and goes on. -/
  | checking
deriving DecidableEq, Repr

def ReporterKind.describe : ReporterKind → String
  | .immediate => "Immediate"
  | .buffering => "Buffering"
  | .throwing => "Throwing"
  | .checking => "Checking(..)"

/-- A handle: what to do with diagnostics, and the buffers and the sink to use. -/
structure Reporter where
  kind : ReporterKind
  buffers : BufferId
  sink : SinkId
deriving DecidableEq, Repr

namespace Reporter

/-- A reporter with fresh buffers. -/
def create (kind : ReporterKind) (sink : SinkId) (channels : Channels) : Reporter × Channels :=
  let (buffers, channels) := channels.addBuffers
  (⟨kind, buffers, sink⟩, channels)

/-- A buffering reporter with fresh buffers on the same sink. -/
def fork (r : Reporter) (channels : Channels) : Reporter × Channels :=
  create .buffering r.sink channels

variable (r : Reporter)

def isBuffering : Bool := r.kind == .buffering

def isThrowing : Bool := r.kind == .throwing

def sharesBuffersWith (other : Reporter) : Bool := r.buffers == other.buffers

def keepError (report : Reported) (channels : Channels) : Channels :=
  channels.modifyBuffers r.buffers fun b => { b with errors := b.errors.add report }

def keepWarning (report : Reported) (channels : Channels) : Channels :=
  channels.modifyBuffers r.buffers fun b => { b with warnings := b.warnings.add report }

/-- Reports an error, which may abandon the computation. -/
def error (report : Reported) (channels : Channels) : Except Abort Unit × Channels :=
  match r.kind with
  | .immediate => (.ok (), channels.emit r.sink report)
  | .buffering => (.ok (), r.keepError report channels)
  | .throwing => (.error ⟨report.diagnostic⟩, channels)
  | .checking =>
    (.ok (), { channels with checked := channels.checked ++ [report.diagnostic] })

/-- Reports a warning: buffered by a buffering reporter, sent to the sink by any other. -/
def warning (report : Reported) (channels : Channels) : Channels :=
  if r.isBuffering then r.keepWarning report channels else channels.emit r.sink report

def issue (report : Reported) (channels : Channels) : Except Abort Unit × Channels :=
  if report.diagnostic.isError then r.error report channels
  else (.ok (), r.warning report channels)

/-- Reports an ambiguity: to the sink if `surface`, else to the error buffer if there is one in
use, else not at all. -/
def ambiguity (report : Reported) (surface : Bool) (channels : Channels) : Channels :=
  if surface then channels.emit r.sink report
  else if r.isBuffering then r.keepError report channels
  else channels

/-- Reports errors in order until one abandons the computation. -/
def errorAll : List Reported → Channels → Except Abort Unit × Channels
  | [], channels => (.ok (), channels)
  | report :: rest, channels =>
    match r.error report channels with
    | (.ok (), channels) => errorAll rest channels
    | (.error abort, channels) => (.error abort, channels)

/-- A buffering reporter on the same buffers. -/
def toBuffering : Reporter := { r with kind := .buffering }

/-- An immediate reporter on the same buffers, after sending out what they hold. -/
def toImmediate (channels : Channels) : Reporter × Channels :=
  let held := channels.buffersAt r.buffers
  let emptied := channels.modifyBuffers r.buffers fun _ => {}
  ({ r with kind := .immediate },
    emptied.emitAll r.sink (held.errors.getD [] ++ held.warnings.getD []))

/-- Moves the buffered errors to another reporter: into its buffer if it buffers, else reported
again there. Reporters on the same buffers have nothing to move. -/
def propagate (target : Reporter) (channels : Channels) : Except Abort Unit × Channels :=
  if r.sharesBuffersWith target then (.ok (), channels)
  else
    match (channels.buffersAt r.buffers).errors with
    | none => (.ok (), channels)
    | some errors =>
      let released := channels.modifyBuffers r.buffers fun b => { b with errors := none }
      if target.isBuffering then
        (.ok (), released.modifyBuffers target.buffers fun b =>
          { b with errors := b.errors.addAll errors })
      else target.errorAll errors released

/-- Keeps the buffered errors that pass a test. -/
def retainErrors (keep : Reported → Bool) (channels : Channels) : Channels :=
  channels.modifyBuffers r.buffers fun b => { b with errors := b.errors.retain keep }

def errors (channels : Channels) : List Reported := (channels.buffersAt r.buffers).errors.getD []

def warnings (channels : Channels) : List Reported :=
  (channels.buffersAt r.buffers).warnings.getD []

/-- The first buffered error that passes a test. -/
def firstError? (test : Reported → Bool) (channels : Channels) : Option Reported :=
  (r.errors channels).find? test

def hasErrors (channels : Channels) : Bool := !(r.errors channels).isEmpty

def hasErrorBuffer (channels : Channels) : Bool :=
  (channels.buffersAt r.buffers).errors.isSome

def emitWarnings (channels : Channels) : Channels :=
  let held := r.warnings channels
  (channels.modifyBuffers r.buffers fun b => { b with warnings := none }).emitAll r.sink held

def clearErrors (channels : Channels) : Channels :=
  channels.modifyBuffers r.buffers fun b => { b with errors := none }

def clear (channels : Channels) : Channels := channels.modifyBuffers r.buffers fun _ => {}

/-- One-line description of a reporter: its kind and how much it buffers. -/
def describe (channels : Channels) : String :=
  let count : Buffer → String
    | none => "None"
    | some reports => s!"Some({reports.length})"
  let held := channels.buffersAt r.buffers
  "Reporter \x7b kind: " ++ r.kind.describe ++ ", errors: " ++ count held.errors ++
    ", warnings: " ++ count held.warnings ++ ", .. \x7d"

end Reporter

end NameResolution
