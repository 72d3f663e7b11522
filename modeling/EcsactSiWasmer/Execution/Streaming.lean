import EcsactSiWasmer.Execution.Sharing
import EcsactSiWasmer.Imports.Iovecs

open EStateM Ecsact.CallMem

namespace Ecsact

-- What a file has in it since it was opened, and what has been delivered of that.
structure FileSession where
  content   : List Byte
  delivered : List Byte

namespace FileCall

variable (c : FileCall)

-- The guests' memories as the callback finds them.
def memories : MemPtr → LinearMemory :=
  c.call.stores c.world.memories

-- A read of a descriptor, in a call which is active, into buffers which the guest may pass.
structure Scatters (fd : BitVec 32) (mem : MemPtr) : Prop where
  name   : c.call.name = "fd_read"
  fd     : c.call.val 0 = fd
  active : callMemRead 0 .memory c.world.callMem = .ok mem c.world.callMem
  args   : Scattered (c.memories mem) (c.call.val 1) (c.call.val 2) (c.call.val 3)

-- The session that a read is part of: the current one, or a new one if the file can be opened.
def session (path : String) : Option FileSession → Option FileSession
  | some s => some s
  | none   => (c.world.files.disk (cStr path)).map (⟨·, []⟩)

-- The session after a read of the file.
def deliver (files : Files) (s : FileSession) : FileSession :=
  { s with delivered := s.delivered ++ Ecsact.delivered (c.run files).state }

-- An `fd_close` which returns ends the session.
def closed (files : Files) (session : Option FileSession) : Option FileSession :=
  match c.run files with
  | .ok _ _    => none
  | .error _ _ => session

-- A read places in the buffers what follows in the content, until the buffers or the content are
-- exhausted, and reports how much it has placed.
structure Continues (mem : MemPtr) (s : FileSession) (w : World) : Prop where
  errno  : w.results = [some (.i32 0)]
  chunks : ∃ chunks, chunks.flatten = Ecsact.delivered w ∧ List.Forall₂ (fun b chunk =>
    chunk.length ≤ b.length ∧ (w.memories mem).bytes.read b.start chunk.length = chunk ∧
      (chunk.length < b.length → s.delivered ++ Ecsact.delivered w = s.content))
    (buffers (c.memories mem).bytes (c.call.val 1) (c.call.val 2)) chunks
  isPrefix : s.delivered ++ Ecsact.delivered w <+: s.content
  count  : (w.memories mem).bytes.readWord 32 (c.call.val 3).toNat =
    BitVec.ofNat 32 (Ecsact.delivered w).length

end FileCall

-- The sessions of the descriptor of a grant: its reads and closings, and among these whatever else
-- guests call, and calls of the host for other virtual paths.
inductive Streaming (g : Grant) : Option FileSession → Files → Prop
  | start {grants : List Grant} {files : Files} : Files.History grants files →
      inForce grants g.virtualPath = some g → files.Closed g.fd → Streaming g none files
  | read {session : Option FileSession} {files : Files} {c : FileCall} {mem : MemPtr}
      {s : FileSession} : Streaming g session files → c.Scatters g.fd mem →
      c.session g.realPath session = some s →
      Streaming g (some (c.deliver files s)) (c.next files)
  | close {session : Option FileSession} {files : Files} {c : FileCall} : Streaming g session files →
      c.call.name = "fd_close" → c.call.val 0 = g.fd →
      Streaming g (c.closed files session) (c.next files)
  | other {session : Option FileSession} {files : Files} {c : FileCall} : Streaming g session files →
      ¬c.IsFor g.fd → Streaming g session (c.next files)
  | allow {session : Option FileSession} {files files' : Files} {realPath virtualPath : String}
      {fd : BitVec 32} : Streaming g session files →
      Files.allowFileReadAccess realPath virtualPath files = .ok fd files' →
      virtualPath ≠ g.virtualPath → Streaming g session files'

end Ecsact
