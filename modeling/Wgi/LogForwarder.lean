import Wgi.Basic
import Wgi.Machine
import Wgi.Segments

/-!
# The Log Forwarder

`LogForwarder` is the file a guest sees as its standard error (and, in lambda mode, as
its standard output). The guest writes bytes in whatever chunks its runtime flushes; the
forwarder hands whole lines to a `Logger` and keeps the last, unfinished line until a
later write completes it or the file is dropped.

The logger is modelled by the list of messages handed to `Logger::log`, in order.

## Main results

* `LogForwarder.write_eq`: one write cuts the unfinished line together with the new
  buffer, logs what is closed and keeps what is open. The proof covers the branch that
  logs the buffer directly, the branch that completes the unfinished line, and the inner
  loop over the remaining newlines.
* `session_eq`: over a whole session of writes, flushes and refused reads and seeks, the
  messages are those of the concatenation of the written buffers. Chunk boundaries do not
  matter.
-/

namespace Wgi

/-- The byte `b'\n'`. -/
def newline : UInt8 := 10

/-- `LogForwarder<L>`: the messages its logger has received, and the unfinished line. -/
structure LogForwarder where
  logged : List Bytes
  incomplete : Bytes
  deriving DecidableEq, Repr

namespace LogForwarder

/-- `LogForwarder::new`. -/
def new : LogForwarder where
  logged := []
  incomplete := []

/-- `self.logger.log(message)`. -/
def log (self : LogForwarder) (message : Bytes) : LogForwarder :=
  { self with logged := self.logged ++ [message] }

/-- `self.incomplete.extend(bytes)`. -/
def extend (self : LogForwarder) (bytes : Bytes) : LogForwarder :=
  { self with incomplete := self.incomplete ++ bytes }

/-- `self.incomplete.clear()`. -/
def clear (self : LogForwarder) : LogForwarder :=
  { self with incomplete := [] }

/-- `Drop::drop`: an unfinished line that is not empty is logged as it stands. -/
def drop (self : LogForwarder) : LogForwarder :=
  if !self.incomplete.isEmpty then self.log self.incomplete else self

/-- `bytes.iter().position(|&c| c == b'\n')`. -/
def position (bytes : Bytes) : Option ℕ :=
  bytes.findIdx? (· == newline)

theorem position_lt {bytes : Bytes} {pos : ℕ} (h : position bytes = some pos) :
    pos < bytes.length :=
  (List.findIdx?_eq_some_iff_getElem.mp h).1

/-- The `while let` loop of `write`: log every line closed in `rest`, and return what is
left after the last newline. -/
def forwardLines (self : LogForwarder) (rest : Bytes) : LogForwarder × Bytes :=
  match h : position rest with
  | some pos => (self.log (rest.take pos)).forwardLines (rest.drop (pos + 1))
  | none => (self, rest)
termination_by rest.length
decreasing_by
  have := position_lt h
  rw [List.length_drop]
  omega

/-- `Write::write`. -/
def write (self : LogForwarder) (buf : Bytes) : Except IoError ℕ × LogForwarder :=
  match position buf with
  | some pos =>
      let line := buf.take pos
      let self :=
        if self.incomplete.isEmpty then
          self.log line
        else
          let self := self.extend line
          (self.log self.incomplete).clear
      let (self, rest) := self.forwardLines (buf.drop (pos + 1))
      (.ok buf.length, self.extend rest)
  | none => (.ok buf.length, self.extend buf)

/-- `Write::flush`. -/
def flush (self : LogForwarder) : Except IoError Unit × LogForwarder :=
  (.ok (), self)

/-- `Read::read`, which always fails. -/
def read (self : LogForwarder) : Except IoError ℕ × LogForwarder :=
  (.error ⟨.other, "read only filesystem"⟩, self)

/-- `Seek::seek`, which always fails. -/
def seek (self : LogForwarder) : Except IoError ℕ × LogForwarder :=
  (.error ⟨.other, "can not seek in a pipe"⟩, self)

/-! ### The specification of one write -/

theorem position_of_notMem {bytes : Bytes} (h : newline ∉ bytes) : position bytes = none := by
  refine List.findIdx?_eq_none_iff.mpr fun b hb => ?_
  exact beq_eq_false_iff_ne.mpr fun hbn => h (hbn ▸ hb)

theorem position_append_cons {line : Bytes} (h : newline ∉ line) (rest : Bytes) :
    position (line ++ newline :: rest) = some line.length := by
  induction line with
  | nil => rfl
  | cons b line ih =>
      rw [List.mem_cons, not_or] at h
      have hb : (b == newline) = false := beq_eq_false_iff_ne.mpr (Ne.symm h.1)
      have ih' : List.findIdx? (· == newline) (line ++ newline :: rest) = some line.length :=
        ih h.2
      rw [position, List.cons_append, List.findIdx?_cons, hb, ih']
      rfl

theorem take_append_cons (line rest : Bytes) :
    (line ++ newline :: rest).take line.length = line :=
  List.take_left

theorem drop_append_cons (line rest : Bytes) :
    (line ++ newline :: rest).drop (line.length + 1) = rest := by
  rw [List.drop_append, List.drop_of_length_le (Nat.le_succ _), List.nil_append,
    Nat.add_sub_cancel_left, List.drop_succ_cons, List.drop_zero]

/-- The loop logs the closed segments of its argument and returns the open one. -/
theorem forwardLines_eq (self : LogForwarder) (rest : Bytes) :
    self.forwardLines rest =
      ({ self with logged := self.logged ++ Segments.complete newline rest },
        Segments.rest newline rest) := by
  induction rest using Segments.induction_on newline generalizing self with
  | hopen rest h =>
      obtain ⟨hc, hr⟩ := Segments.complete_rest_of_notMem newline h
      rw [forwardLines, hc, hr, List.append_nil]
      split
      · next pos hpos => simp [position_of_notMem h] at hpos
      · rfl
  | hclosed line rest h ih =>
      obtain ⟨hc, hr⟩ := Segments.complete_rest_append_cons newline h rest
      rw [forwardLines]
      split
      · next pos hpos =>
          obtain rfl : line.length = pos := by
            rw [position_append_cons h, Option.some.injEq] at hpos
            exact hpos
          rw [take_append_cons, drop_append_cons, ih, hc, hr, log, List.append_assoc,
            List.singleton_append]
      · next hpos => simp [position_append_cons h] at hpos

/-- **One write**: the unfinished line and the new buffer are cut together; the closed
segments are logged and the open one is kept. -/
theorem write_eq {self : LogForwarder} (hself : newline ∉ self.incomplete) (buf : Bytes) :
    self.write buf =
      (.ok buf.length,
        { logged := self.logged ++ Segments.complete newline (self.incomplete ++ buf)
          incomplete := Segments.rest newline (self.incomplete ++ buf) }) := by
  by_cases hbuf : newline ∈ buf
  · obtain ⟨line, rest, rfl, hline⟩ := List.eq_append_cons_of_mem hbuf
    have hjoin : newline ∉ self.incomplete ++ line := by
      rw [List.mem_append, not_or]
      exact ⟨hself, hline⟩
    obtain ⟨hc, hr⟩ := Segments.complete_rest_append_cons newline hjoin rest
    rw [List.append_assoc] at hc hr
    rw [write, position_append_cons hline]
    simp only [take_append_cons, drop_append_cons, forwardLines_eq, hc, hr]
    by_cases hempty : self.incomplete = []
    · simp [hempty, log, extend]
    · simp [hempty, log, extend, clear]
  · have hjoin : newline ∉ self.incomplete ++ buf := by
      rw [List.mem_append, not_or]
      exact ⟨hself, hbuf⟩
    obtain ⟨hc, hr⟩ := Segments.complete_rest_of_notMem newline hjoin
    rw [write, position_of_notMem hbuf, hc, hr, List.append_nil]
    rfl

/-! ### Whole sessions -/

/-- A call of the guest's runtime on the open file. -/
inductive IoOp where
  | write (buf : Bytes)
  | flush
  | read
  | seek
  deriving DecidableEq, Repr

/-- What such a call returns. -/
inductive IoReply where
  | wrote (result : Except IoError ℕ)
  | flushed (result : Except IoError Unit)
  | read (result : Except IoError ℕ)
  | sought (result : Except IoError ℕ)
  deriving DecidableEq

/-- One call. -/
def io (self : LogForwarder) : IoOp → IoReply × LogForwarder
  | .write buf => (.wrote (self.write buf).1, (self.write buf).2)
  | .flush => (.flushed self.flush.1, self.flush.2)
  | .read => (.read self.read.1, self.read.2)
  | .seek => (.sought self.seek.1, self.seek.2)

/-- The forwarder as a machine over the calls it receives. No call panics. -/
def machine : Machine LogForwarder IoOp IoReply Empty where
  step self op := .ok (self.io op)

/-- A session: a fresh forwarder receives the calls in order and is then dropped. The
result is what the calls returned and the messages the logger received. -/
def session (ops : List IoOp) : List IoReply × List Bytes :=
  match machine.run new ops with
  | .ok (replies, self) => (replies, self.drop.logged)
  | .error e => nomatch e

/-- The reply a call is owed: a write accepts its whole buffer, a flush succeeds, and
reading and seeking are refused. -/
def IoOp.reply : IoOp → IoReply
  | .write buf => .wrote (.ok buf.length)
  | .flush => .flushed (.ok ())
  | .read => .read (.error ⟨.other, "read only filesystem"⟩)
  | .seek => .sought (.error ⟨.other, "can not seek in a pipe"⟩)

/-- The bytes a call adds to the stream. -/
def IoOp.bytes : IoOp → Bytes
  | .write buf => buf
  | .flush => []
  | .read => []
  | .seek => []

/-- The stream a session writes: the concatenation of its buffers. -/
def written (ops : List IoOp) : Bytes :=
  ops.flatMap IoOp.bytes

/-- The messages a stream of log text stands for: its newline-separated segments, where
the one after the last newline counts only if it is not empty. -/
def messagesOf (stream : Bytes) : List Bytes :=
  Segments.messages newline stream

/-- A line at the head of a stream is its first message. -/
theorem messagesOf_line {line : Bytes} (h : newline ∉ line) (stream : Bytes) :
    messagesOf (line ++ newline :: stream) = line :: messagesOf stream :=
  Segments.messages_append_cons newline h stream

/-- The forwarder after a stream: the closed segments are logged, the open one is held. -/
def Holds (stream : Bytes) (self : LogForwarder) : Prop :=
  self.logged = Segments.complete newline stream ∧
    self.incomplete = Segments.rest newline stream

theorem Holds.append_nil {stream : Bytes} {self : LogForwarder} (h : Holds stream self) :
    Holds (stream ++ []) self := by
  rwa [List.append_nil]

/-- The step lemma: every call returns its reply and keeps the forwarder at the stream
extended by the bytes of the call. -/
theorem io_holds {stream : Bytes} {self : LogForwarder} (h : Holds stream self) (op : IoOp) :
    ∃ next, self.io op = (op.reply, next) ∧ Holds (stream ++ op.bytes) next := by
  cases op with
  | write buf =>
      obtain ⟨hlog, hinc⟩ := h
      have hfree : newline ∉ self.incomplete := hinc ▸ Segments.notMem_rest newline stream
      refine ⟨(self.write buf).2, ?_, ?_⟩
      · have hreply : (self.write buf).1 = .ok buf.length := by rw [write_eq hfree]
        rw [IoOp.reply, ← hreply]
        rfl
      · rw [write_eq hfree, hlog, hinc]
        exact ⟨(Segments.complete_append newline stream buf).symm,
          (Segments.rest_append newline stream buf).symm⟩
  | flush => exact ⟨self, rfl, h.append_nil⟩
  | read => exact ⟨self, rfl, h.append_nil⟩
  | seek => exact ⟨self, rfl, h.append_nil⟩

/-- A write keeps the forwarder at the stream extended by the buffer. -/
theorem Holds.write {stream : Bytes} {self : LogForwarder} (h : Holds stream self) (buf : Bytes) :
    Holds (stream ++ buf) (self.write buf).2 := by
  obtain ⟨next, hio, hnext⟩ := io_holds h (.write buf)
  have hwrite : (self.write buf).2 = next := congrArg Prod.snd hio
  rw [hwrite]
  exact hnext

/-- The forwarder holds what was written of a stream before the given calls. -/
def HoldsBefore (stream : Bytes) (ops : List IoOp) (self : LogForwarder) : Prop :=
  ∃ done, Holds done self ∧ done ++ written ops = stream

theorem step_holdsBefore {stream : Bytes} (op : IoOp) (ops : List IoOp) (self : LogForwarder)
    (h : HoldsBefore stream (op :: ops) self) :
    ∃ reply next, machine.step self op = .ok (reply, next) ∧ op.reply = reply ∧
      HoldsBefore stream ops next := by
  obtain ⟨done, hdone, hstream⟩ := h
  obtain ⟨next, hio, hnext⟩ := io_holds hdone op
  refine ⟨op.reply, next, congrArg Except.ok hio, rfl, done ++ op.bytes, hnext, ?_⟩
  rw [List.append_assoc]
  exact hstream

/-- The run lemma: a run over calls returns every reply and ends at the whole stream. -/
theorem run_holds {stream : Bytes} {ops : List IoOp} {self : LogForwarder}
    (h : HoldsBefore stream ops self) :
    ∃ last, machine.run self ops = .ok (ops.map IoOp.reply, last) ∧ Holds stream last := by
  obtain ⟨replies, last, hrun, hreplies, done, hdone, hstream⟩ :=
    machine.run_total step_holdsBefore h
  rw [← List.forall₂_map_left_iff, List.forall₂_eq_eq_eq] at hreplies
  subst hreplies
  have hall : done = stream := (List.append_nil done).symm.trans hstream
  subst hall
  exact ⟨last, hrun, hdone⟩

/-- Dropping a forwarder that holds a stream leaves the logger with its messages. -/
theorem drop_logged {stream : Bytes} {self : LogForwarder} (h : Holds stream self) :
    self.drop.logged = messagesOf stream := by
  obtain ⟨hlog, hinc⟩ := h
  rw [messagesOf, Segments.messages, drop, hinc]
  by_cases hempty : (Segments.rest newline stream).isEmpty
  · simp [hempty, hlog]
  · simp [hempty, log, hlog]

/-- A session returns every reply, and the logger receives the messages of the written
stream. -/
theorem session_eq (ops : List IoOp) :
    session ops = (ops.map IoOp.reply, messagesOf (written ops)) := by
  have hnew : HoldsBefore (written ops) ops new := ⟨[], ⟨rfl, rfl⟩, rfl⟩
  obtain ⟨last, hrun, hlast⟩ := run_holds hnew
  rw [session, hrun]
  exact Prod.ext rfl (drop_logged hlast)

/-- **The logger sees the lines of the stream, whatever the chunking.** Every write is
accepted in full; the messages are the newline-separated segments of the concatenated
buffers, the last one only if it is not empty; and so two sessions that write the same
stream log the same messages. -/
theorem session_logs_segments (ops : List IoOp) :
    session ops = (ops.map IoOp.reply, messagesOf (written ops)) ∧
      ∀ ops', written ops' = written ops → (session ops').2 = (session ops).2 := by
  refine ⟨session_eq ops, fun ops' h => ?_⟩
  rw [session_eq, session_eq, h]

end LogForwarder

end Wgi
