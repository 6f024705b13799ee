import Wgi.LogForwarder

/-!
# The Log Forwarder as a File

The runtime of the guest holds a `LogForwarder` as a `VirtualFile`. Besides reading, writing,
flushing and seeking, it can ask the file for its times, its size and the bytes that are
available, unlink it, and set its length. The size is that of the unfinished line, and setting
the length cuts that line or fills it up with zeros: the bytes that are dropped are never logged,
and the zeros are.

A longer length may need memory. A vector of more than `isize::MAX` bytes makes `Vec::resize`
panic; the forwarder is then dropped as the panic unwinds. An allocator that has no memory ends
the process, and nothing is dropped. What the allocator does is part of the call here. That there
is memory for the bytes a guest writes is assumed.

The abstract file is the stream of the bytes that were written, as edited.

## Main results

* `step_agrees`: every call on the forwarder is one on the stream that it holds.
* `fileSession_refines`: whole sessions, with the messages that are logged.
-/

namespace Wgi

namespace LogForwarder

/-- How a call ends that does not return. -/
inductive Ending where
  /-- The call panics. -/
  | panicked
  /-- The process is aborted. -/
  | aborted
  deriving DecidableEq, Repr

/-- A call on the file, and what a growing vector gets from the allocator. -/
inductive FileOp where
  | io (op : IoOp)
  | lastAccessed
  | lastModified
  | createdTime
  | size
  | setLen (len : UInt64) (memory : Except Ending Unit)
  | unlink
  | bytesAvailable
  deriving DecidableEq

/-- What such a call returns. No call returns an `FsError`. -/
inductive FileReply where
  | io (reply : IoReply)
  | time (stamp : UInt64)
  | size (len : UInt64)
  | done
  | available (len : ℕ)
  deriving DecidableEq

/-- `isize::MAX`: no vector has more bytes. -/
def isizeMax : ℕ := 9223372036854775807

/-- A vector of another length, with zeros behind what it had. -/
def resize (bytes : Bytes) (len : ℕ) : Bytes :=
  (bytes ++ List.replicate (len - bytes.length) 0).take len

/-- `VirtualFile::last_accessed`, `last_modified` and `created_time`. -/
def stamp : UInt64 := 0

/-- `VirtualFile::size`. -/
def size (self : LogForwarder) : UInt64 :=
  UInt64.ofNat self.incomplete.length

/-- `Vec::resize`: only a vector that grows asks for memory, and none has more than `isize::MAX`
bytes. -/
def resizeVec (bytes : Bytes) (len : ℕ) (memory : Except Ending Unit) : Except Ending Bytes :=
  if len ≤ bytes.length then .ok (resize bytes len)
  else if len > isizeMax then .error .panicked
  else memory.map fun _ => resize bytes len

/-- `VirtualFile::set_len`. -/
def setLen (self : LogForwarder) (len : UInt64) (memory : Except Ending Unit) :
    Except Ending LogForwarder :=
  (resizeVec self.incomplete len.toNat memory).map fun bytes => { self with incomplete := bytes }

/-- `VirtualFile::bytes_available`. -/
def bytesAvailable (self : LogForwarder) : ℕ :=
  self.incomplete.length

/-- The forwarder as a machine over the calls on the file. A call that does not return leaves the
forwarder as it is. -/
def file : Machine LogForwarder FileOp FileReply (Ending × LogForwarder) where
  step self
    | .io op => .ok (.io (self.io op).1, (self.io op).2)
    | .lastAccessed => .ok (.time stamp, self)
    | .lastModified => .ok (.time stamp, self)
    | .createdTime => .ok (.time stamp, self)
    | .size => .ok (.size self.size, self)
    | .setLen len memory =>
        match self.setLen len memory with
        | .ok next => .ok (.done, next)
        | .error ending => .error (ending, self)
    | .unlink => .ok (.done, self)
    | .bytesAvailable => .ok (.available self.bytesAvailable, self)

/-- A session: a fresh forwarder receives the calls in order, until one of them does not return,
and is then dropped, unless the process is aborted. The result is what the calls returned, or how
the session ended, and the messages the logger received. -/
def fileSession (ops : List FileOp) : Except Ending (List FileReply) × List Bytes :=
  match file.run new ops with
  | .ok (replies, self) => (.ok replies, self.drop.logged)
  | .error (.panicked, self) => (.error .panicked, self.drop.logged)
  | .error (.aborted, self) => (.error .aborted, self.logged)

/-- What the logger has received by the end of the calls, before the forwarder is dropped. -/
def loggedBy (ops : List FileOp) : List Bytes :=
  match file.run new ops with
  | .ok (_, self) => self.logged
  | .error (_, self) => self.logged

/-! ### The abstract file -/

/-- The line of a stream that is not yet closed. -/
def openLine (stream : Bytes) : Bytes := Segments.rest newline stream

/-- The stream as a file. Only the open line can be resized, and it is the size of the file. -/
def streamFile : Machine Bytes FileOp FileReply (Ending × Bytes) where
  step stream
    | .io op => .ok (.io op.reply, stream ++ op.bytes)
    | .lastAccessed | .lastModified | .createdTime => .ok (.time 0, stream)
    | .size => .ok (.size (UInt64.ofNat (openLine stream).length), stream)
    | .setLen len memory =>
        match resizeVec (openLine stream) len.toNat memory with
        | .ok line => .ok (.done, Segments.setRest newline stream line)
        | .error ending => .error (ending, stream)
    | .unlink => .ok (.done, stream)
    | .bytesAvailable => .ok (.available (openLine stream).length, stream)

/-- The stream at the end of the calls, or when one of them does not return. -/
def editedStream (ops : List FileOp) : Bytes :=
  match streamFile.run [] ops with
  | .ok (_, stream) => stream
  | .error (_, stream) => stream

/-- The segments that are logged of a stream: all its messages, but only the closed ones when the
process is aborted. -/
def finalSegments {α β : Type} [DecidableEq α] (d : α) :
    Except Ending β → List α → List (List α)
  | .error .aborted, stream => Segments.complete d stream
  | _, stream => Segments.messages d stream

/-- What a session on the stream returns, and the messages that the stream stands for. -/
def streamSession (ops : List FileOp) : Except Ending (List FileReply) × List Bytes :=
  let result := ((streamFile.run [] ops).map Prod.fst).mapError Prod.fst
  (result, finalSegments newline result (editedStream ops))

/-! ### The refinement -/

/-- A line keeps free of line feeds when it is resized. -/
theorem notMem_resize {bytes : Bytes} (h : newline ∉ bytes) (len : ℕ) :
    newline ∉ resize bytes len := by
  intro hmem
  rcases List.mem_append.mp (List.mem_of_mem_take hmem) with hold | hnew
  · exact h hold
  · exact absurd (List.eq_of_mem_replicate hnew) (by decide)

/-- A line that is resized keeps free of line feeds. -/
theorem notMem_of_resizeVec {bytes line : Bytes} {len : ℕ} {memory : Except Ending Unit}
    (h : newline ∉ bytes) (hline : resizeVec bytes len memory = .ok line) : newline ∉ line := by
  have hresize : line = resize bytes len := by
    rw [resizeVec] at hline
    split_ifs at hline
    · exact (Except.ok.inj hline).symm
    · cases memory with
      | error ending => simp [Except.map] at hline
      | ok _ => exact (Except.ok.inj hline).symm
  exact hresize ▸ notMem_resize h len

/-- A forwarder with another unfinished line holds the stream with another open line. -/
theorem Holds.setRest {stream : Bytes} {self : LogForwarder} (h : Holds stream self)
    {line : Bytes} (hline : newline ∉ line) :
    Holds (Segments.setRest newline stream line) { self with incomplete := line } := by
  obtain ⟨hcomplete, hrest⟩ := Segments.complete_rest_setRest newline stream hline
  exact ⟨h.1.trans hcomplete.symm, hrest.symm⟩

/-- A failure of the forwarder and one of the stream: they end in the same way, and the forwarder
holds the stream. -/
def EndsLike (failed : Ending × LogForwarder) (failed' : Ending × Bytes) : Prop :=
  failed.1 = failed'.1 ∧ Holds failed'.2 failed.2

/-- **The step lemma**: a call on the forwarder returns what it returns on the stream that the
forwarder holds, or panics with it, and the forwarder then holds the edited stream. -/
theorem step_agrees (op : FileOp) (self : LogForwarder) (stream : Bytes) (h : Holds stream self) :
    Machine.Agree (fun self stream => Holds stream self) EndsLike
      (file.step self op) (streamFile.step stream op) := by
  have hline : self.incomplete = openLine stream := h.2
  cases op with
  | io op =>
      obtain ⟨next, hio, hnext⟩ := io_holds h op
      simp only [file, streamFile, hio]
      exact .ok _ hnext
  | lastAccessed | lastModified | createdTime => exact .ok _ h
  | size =>
      simp only [file, streamFile, size, hline]
      exact .ok _ h
  | setLen len memory =>
      simp only [file, streamFile, setLen, hline]
      cases hresize : resizeVec (openLine stream) len.toNat memory with
      | error ending => exact .error ⟨rfl, h⟩
      | ok line =>
          exact .ok _ (h.setRest
            (notMem_of_resizeVec (Segments.notMem_rest newline stream) hresize))
  | unlink => exact .ok _ h
  | bytesAvailable =>
      simp only [file, streamFile, bytesAvailable, hline]
      exact .ok _ h

/-- The run lemma: a run on the forwarder is one on the stream. -/
theorem run_agrees (ops : List FileOp) :
    Machine.Agree (fun self stream => Holds stream self) EndsLike
      (file.run new ops) (streamFile.run [] ops) :=
  file.run_simulates streamFile step_agrees ⟨rfl, rfl⟩ ops

theorem fileSession_eq (ops : List FileOp) : fileSession ops = streamSession ops := by
  have hagree := run_agrees ops
  rw [fileSession, streamSession, editedStream]
  cases hrun : file.run new ops with
  | error failed =>
      obtain ⟨ending, self⟩ := failed
      rw [hrun] at hagree
      obtain ⟨⟨ending', stream⟩, hstream, hending, hholds⟩ := hagree.exists_error
      obtain rfl : ending = ending' := hending
      rw [hstream]
      cases ending with
      | panicked => exact Prod.ext rfl (drop_logged hholds)
      | aborted => exact Prod.ext rfl hholds.1
  | ok result =>
      rw [hrun] at hagree
      obtain ⟨stream, hstream, hholds⟩ := hagree.exists_ok
      rw [hstream]
      exact Prod.ext rfl (drop_logged hholds)

/-! ### What is logged stays logged -/

/-- What the logger has received are the closed lines of the stream. -/
theorem loggedBy_eq (ops : List FileOp) :
    loggedBy ops = Segments.complete newline (editedStream ops) := by
  have hagree := run_agrees ops
  rw [loggedBy, editedStream]
  cases hrun : file.run new ops with
  | error failed =>
      rw [hrun] at hagree
      obtain ⟨failed', hstream, -, hholds⟩ := hagree.exists_error
      rw [hstream]
      exact hholds.1
  | ok result =>
      rw [hrun] at hagree
      obtain ⟨stream, hstream, hholds⟩ := hagree.exists_ok
      rw [hstream]
      exact hholds.1

/-- However a session ends, the closed lines of its stream are logged. -/
theorem complete_prefix_finalSegments {β : Type} (result : Except Ending β) (stream : Bytes) :
    Segments.complete newline stream <+: finalSegments newline result stream := by
  rcases result with (_ | _) | _
  · exact Segments.complete_prefix_messages newline stream
  · exact List.prefix_refl _
  · exact Segments.complete_prefix_messages newline stream

/-- A call on the stream leaves its closed lines closed. -/
theorem step_keeps {lines : List Bytes} (op : FileOp) (stream : Bytes)
    (h : lines <+: Segments.complete newline stream) :
    (∃ failed, lines <+: Segments.complete newline failed.2 ∧
        streamFile.step stream op = .error failed) ∨
      ∃ reply next, streamFile.step stream op = .ok (reply, next) ∧
        lines <+: Segments.complete newline next := by
  cases op with
  | io op =>
      refine Or.inr ⟨_, _, rfl, ?_⟩
      rw [Segments.complete_append]
      exact h.trans (List.prefix_append _ _)
  | setLen len memory =>
      simp only [streamFile]
      cases hresize : resizeVec (openLine stream) len.toNat memory with
      | error ending => exact Or.inl ⟨(ending, stream), h, rfl⟩
      | ok line =>
          refine Or.inr ⟨_, _, rfl, ?_⟩
          have hfree := notMem_of_resizeVec (Segments.notMem_rest newline stream) hresize
          rw [(Segments.complete_rest_setRest newline stream hfree).1]
          exact h
  | lastAccessed | lastModified | createdTime | size | unlink | bytesAvailable =>
      exact Or.inr ⟨_, _, rfl, h⟩

/-- The run lemma: the closed lines of a stream are closed at the end of every run. -/
theorem run_keeps (stream : Bytes) (ops : List FileOp) :
    (∃ failed, Segments.complete newline stream <+: Segments.complete newline failed.2 ∧
        streamFile.run stream ops = .error failed) ∨
      ∃ replies last, streamFile.run stream ops = .ok (replies, last) ∧
        Segments.complete newline stream <+: Segments.complete newline last := by
  let kept (s : Bytes) : Prop := Segments.complete newline stream <+: Segments.complete newline s
  have hstep : ∀ (op : FileOp) (ops : List FileOp) s, kept s →
      (∃ failed, kept failed.2 ∧ streamFile.step s op = .error failed) ∨
        ∃ reply next, streamFile.step s op = .ok (reply, next) ∧ True ∧ kept next := by
    intro op _ s h
    rcases step_keeps op s h with hfailed | ⟨reply, next, hstep, hnext⟩
    · exact Or.inl hfailed
    · exact Or.inr ⟨reply, next, hstep, trivial, hnext⟩
  rcases streamFile.run_total_or (P := fun _ s => kept s) (R := fun _ _ => True)
      (E := fun failed => kept failed.2) hstep
      (List.prefix_refl (Segments.complete newline stream)) with
    ⟨failed, hfailed, hrun⟩ | ⟨replies, last, hrun, -, hlast⟩
  · exact Or.inl ⟨failed, hfailed, hrun⟩
  · exact Or.inr ⟨replies, last, hrun, hlast⟩

/-- Later calls leave the closed lines of the stream closed. -/
theorem complete_editedStream_append (before after : List FileOp) :
    Segments.complete newline (editedStream before) <+:
      Segments.complete newline (editedStream (before ++ after)) := by
  rw [editedStream, editedStream, streamFile.run_append]
  cases streamFile.run [] before with
  | error failed => exact List.prefix_refl _
  | ok first =>
      obtain ⟨replies, stream⟩ := first
      rcases run_keeps stream after with ⟨failed, hfailed, hrun⟩ | ⟨replies', last, hrun, hlast⟩
      · simp only [Except.bind, Except.map, hrun]
        exact hfailed
      · simp only [Except.bind, Except.map, hrun]
        exact hlast

/-- **The forwarder as a file.** Over every session of calls, reads and writes as well as queries
and changes of the length, the forwarder returns what the edited stream returns, panics or aborts
exactly when the edited stream does, and leaves the logger with the messages of the edited stream,
or with its closed lines when the process is aborted. Whatever is called later, no message is
taken back. -/
theorem fileSession_refines (before after : List FileOp) :
    fileSession (before ++ after) = streamSession (before ++ after) ∧
      loggedBy before <+: (fileSession (before ++ after)).2 := by
  refine ⟨fileSession_eq _, ?_⟩
  rw [fileSession_eq, streamSession, loggedBy_eq]
  exact (complete_editedStream_append before after).trans
    (complete_prefix_finalSegments _ _)

end LogForwarder

end Wgi
