import EcsactSiWasmer.Execution.Grants
import EcsactSiWasmer.Execution.Opens

open EStateM Ecsact.CallMem

namespace Ecsact

-- What a seek is relative to, by the values of `whence` in `wasi_snapshot_preview1`: the start of the
-- file, the current offset or the end of the file.
def seekBase (size offset : Nat) (whence : BitVec 32) : Option Nat :=
  if whence = 0 then some 0
  else if whence = 1 then some offset
  else if whence = 2 then some size
  else none

-- The offset which a seek asks for, unless it is before the start of the file.
def seekTarget (size offset : Nat) (whence : BitVec 32) (delta : BitVec 64) : Option Nat :=
  (seekBase size offset whence).bind fun base =>
    if 0 ≤ base + delta.toInt then some (base + delta.toInt).toNat else none

-- The position of the stream which is recorded for a descriptor. A file is opened at its start.
def Files.position (fd : BitVec 32) (files : Files) : Nat :=
  match (files.virtualFiles fd).bind (·.openedFile) with
  | some (some k) => (files.streams[k]?.map (·.pos)).getD 0
  | _             => 0

namespace FileCall

variable (c : FileCall)

-- The calls are seeks and reads of one descriptor, in calls which are active.
structure MovesCursor (fd : BitVec 32) : Prop where
  name   : c.call.name = "fd_seek" ∨ c.call.name = "fd_read"
  fd     : c.call.val 0 = fd
  active : ∃ mem, callMemRead 0 .memory c.world.callMem = .ok mem c.world.callMem

-- The offset by which a seek is to move. It is the only argument of 64 bits.
def delta : BitVec 64 :=
  match c.call.args.drop 1 with
  | .i64 v :: _ => v
  | _           => 0

def target (size offset : Nat) : Option Nat :=
  seekTarget size offset (c.call.val 1) c.delta

-- A call has returned success.
def Succeeds (files : Files) : Prop :=
  (c.run files).state.results = [some (.i32 0)]

instance {c : FileCall} {files : Files} : Decidable (c.Succeeds files) :=
  inferInstanceAs <| Decidable (_ = _)

end FileCall

-- The files, and the offset at which the guest goes on reading if WASI is right about its calls.
structure Cursor where
  files  : Files
  offset : Nat

namespace Cursor

variable (size : Nat) (cur : Cursor) (c : FileCall)

def next : Cursor where
  files  := c.next cur.files
  offset :=
    if c.call.name = "fd_read" then cur.offset + (delivered (c.run cur.files).state).length
    else if c.Succeeds cur.files then (c.target size cur.offset).getD cur.offset
    else cur.offset

-- A seek which succeeds stores the offset which it asks for, and the reads go on from there. A seek
-- which does not move the position fails, and leaves the guests' memories alone as well.
structure Agrees (fd : BitVec 32) (content : List Byte) : Prop where
  read    : c.call.name = "fd_read" →
    delivered (c.run cur.files).state <+: content.drop cur.offset
  success : c.call.name = "fd_seek" → c.Succeeds cur.files → ∃ n,
    c.target content.length cur.offset = some n ∧
    ∀ mem, callMemRead 0 .memory c.world.callMem = .ok mem c.world.callMem →
      ((c.run cur.files).state.memories mem).bytes.readWord 64 (c.call.val 2).toNat =
        BitVec.ofNat 64 n
  failure : c.call.name = "fd_seek" →
    (c.next cur.files).position fd = cur.files.position fd → ¬c.Succeeds cur.files ∧
      (c.run cur.files).state.memories = (c.call.enter (c.start cur.files)).memories

-- A seek has moved the position to the offset which it asks for, and has stored that.
structure Moves (fd : BitVec 32) : Prop where
  target : c.target size cur.offset = some ((c.next cur.files).position fd)
  stored : ∀ mem, callMemRead 0 .memory c.world.callMem = .ok mem c.world.callMem →
    ((c.run cur.files).state.memories mem).bytes.readWord 64 (c.call.val 2).toNat =
      BitVec.ofNat 64 ((c.next cur.files).position fd)

end Cursor
end Ecsact
