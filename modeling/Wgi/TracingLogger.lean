import Wgi.LogFile
import Wgi.Lossy

/-!
# The Log as Text

`TracingLogger` makes an event of every message, with its own level and the text of the message,
in which what is not UTF-8 is replaced. The forwarder cuts the bytes of the guest into messages
before they are decoded, wherever the guest has cut its writes.

## Main results

* `tracing_session`: the events are the lines of the decoded stream.
-/

namespace Wgi

/-- `tracing::Level`. -/
inductive Level where
  | error
  | warn
  | info
  | debug
  | trace
  deriving DecidableEq, Repr

/-- An event of the log. -/
structure TracingEvent where
  level : Level
  message : Str
  deriving DecidableEq, Repr

/-- `TracingLogger`. -/
structure TracingLogger where
  level : Level

namespace TracingLogger

/-- `Logger::log`: the macro of each level makes an event of that level. -/
def log (self : TracingLogger) (message : Bytes) : TracingEvent :=
  let message := Utf8.lossy message
  match self.level with
  | .error => ⟨.error, message⟩
  | .warn => ⟨.warn, message⟩
  | .info => ⟨.info, message⟩
  | .debug => ⟨.debug, message⟩
  | .trace => ⟨.trace, message⟩

/-- The events for the messages of a forwarder. -/
def events (self : TracingLogger) (messages : List Bytes) : List TracingEvent :=
  messages.map self.log

theorem log_eq (self : TracingLogger) (message : Bytes) :
    self.log message = ⟨self.level, Utf8.lossy message⟩ := by
  obtain ⟨level⟩ := self
  cases level <;> rfl

/-- The events for decoded messages. -/
theorem events_eq (self : TracingLogger) {messages : List Bytes} {texts : List Str}
    (h : messages.map Utf8.lossy = texts) :
    self.events messages = texts.map fun text => ⟨self.level, text⟩ := by
  rw [events, ← h, List.map_map]
  exact List.map_congr_left fun message _ => self.log_eq message

end TracingLogger

/-- **The log as text.** Whatever a guest writes and however it cuts its writes, also inside
characters, the events that a forwarder makes have the level of its logger, and their texts are
the lines of the text of the whole stream, as edited; the last line is missing if the process was
aborted. If a guest writes UTF-8, they are the lines of the text that it writes. -/
theorem tracing_session (logger : TracingLogger) :
    (∀ ops, logger.events (LogForwarder.fileSession ops).2 =
      (LogForwarder.finalSegments '\n' (LogForwarder.fileSession ops).1
        (Utf8.lossy (LogForwarder.editedStream ops))).map fun line => ⟨logger.level, line⟩) ∧
    ∀ calls text, LogForwarder.written calls = Utf8.encode text →
      logger.events (LogForwarder.session calls).2 =
        (Segments.messages '\n' text).map fun line => ⟨logger.level, line⟩ := by
  have hpos : 0 < newline.toNat := by decide
  have hascii : newline.toNat < 0x80 := by decide
  refine ⟨fun ops => logger.events_eq ?_, fun calls text htext => logger.events_eq ?_⟩
  · rw [LogForwarder.fileSession_eq, LogForwarder.streamSession]
    simp only
    rcases ((LogForwarder.streamFile.run [] ops).map Prod.fst).mapError Prod.fst with
      (_ | _) | replies
    · exact Utf8.map_lossy_messages hpos hascii _
    · exact (Utf8.map_lossy_complete_rest hpos hascii _).1
    · exact Utf8.map_lossy_messages hpos hascii _
  · have hlines : (LogForwarder.messagesOf (Utf8.encode text)).map Utf8.lossy =
        Segments.messages '\n' (Utf8.lossy (Utf8.encode text)) :=
      Utf8.map_lossy_messages hpos hascii _
    rw [LogForwarder.session_eq, htext, hlines, Utf8.lossy_encode]

end Wgi
