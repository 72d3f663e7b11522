import EcsactSiWasmer.Execution.Sharing
import EcsactSiWasmer.Execution.Theorems.Grants
import EcsactSiWasmer.Execution.Theorems.Opens

open EStateM Ecsact.World Ecsact.CallMem

namespace Ecsact

namespace Files

variable {fd : BitVec 32} {path : String} {files : Files}

-- What a descriptor stands for: nothing opened, a failed open or an open stream.
inductive Shows (fd : BitVec 32) (path : String) (files : Files) : Option (Option Stream) → Prop
  | closed {info : VirtualFileInfo} : files.virtualFiles fd = some info → info.realPath = path →
      info.openedFile = none → Shows fd path files none
  | failed {info : VirtualFileInfo} : files.virtualFiles fd = some info → info.realPath = path →
      info.openedFile = some none → Shows fd path files (some none)
  | stream {info : VirtualFileInfo} {k : Nat} {s : Stream} : files.virtualFiles fd = some info →
      info.realPath = path → info.openedFile = some (some k) → files.streams[k]? = some s →
      s.closed = false → Shows fd path files (some (some s))

namespace Shows

variable {opened : Option (Option Stream)} {disk : String → Option (List Byte)} {s s' : Stream}

theorem withDisk (h : Shows fd path files opened) :
    Shows fd path { files with disk := disk } opened := by
  cases h
  case closed hv hp ho        => exact .closed hv hp ho
  case failed hv hp ho        => exact .failed hv hp ho
  case stream hv hp ho hs hc  => exact .stream hv hp ho hs hc

theorem closed_iff (h : Shows fd path files opened) : files.Closed fd ↔ opened = none := by
  constructor
  case mp =>
    intro ⟨info, hv, ho⟩
    cases h
    case closed             => rfl
    case failed hv' _ ho'   =>
      cases hv.symm.trans hv'
      cases ho.symm.trans ho'
    case stream hv' _ ho' _ _ =>
      cases hv.symm.trans hv'
      cases ho.symm.trans ho'
  case mpr =>
    intro he
    subst he
    cases h
    case closed hv _ ho => exact ⟨_, hv, ho⟩

-- The stream of an open file, or of one which is opened now.
def streamOf (content : Option (List Byte)) (path : String) : Option (Option Stream) → Option Stream
  | some file => file
  | none      => content.map fun content => ⟨cStr path, "r", content, 0, false⟩

theorem ensureOpen_none (h : Shows fd path files opened)
    (hn : streamOf (files.disk (cStr path)) path opened = none) :
    ∃ files', Files.ensureOpen fd files = .ok none files' ∧
      Shows fd path files' (some none) := by
  cases h
  case closed info hv hp ho =>
    subst hp
    have hd := Option.map_eq_none_iff.mp hn
    refine ⟨_, ensureOpen_fails hv ho hd, .failed (withOpenedFile_apply.trans <| if_pos rfl) rfl rfl⟩
  case failed hv hp ho => exact ⟨files, ensureOpen_open hv ho, .failed hv hp ho⟩
  case stream          => cases hn

theorem closed_eq_false (h : Shows fd path files opened)
    (hn : streamOf (files.disk (cStr path)) path opened = some s) : s.closed = false := by
  cases h
  case closed =>
    have ⟨_, _, hs⟩ := Option.map_eq_some_iff.mp hn
    exact hs ▸ rfl
  case failed => cases hn
  case stream hc =>
    cases hn
    exact hc

theorem ensureOpen_some (h : Shows fd path files opened)
    (hn : streamOf (files.disk (cStr path)) path opened = some s) :
    ∃ k files', Files.ensureOpen fd files = .ok (some k) files' ∧
      files'.streams[k]? = some s ∧ ∀ s', s'.closed = false →
        Shows fd path (files'.setStream k s') (some (some s')) := by
  cases h
  case closed info hv hp ho =>
    subst hp
    have ⟨content, hd, hs⟩ := Option.map_eq_some_iff.mp hn
    subst hs
    refine ⟨_, _, ensureOpen_opens hv ho hd, List.getElem?_concat_length, fun s' hc => ?_⟩
    refine .stream (withOpenedFile_apply.trans <| if_pos rfl) rfl rfl ?_ hc
    exact List.getElem?_set_self <| by simp [reopened, withOpenedFile, Files.addStream]
  case failed => cases hn
  case stream hv hp ho hs hc =>
    cases hn
    refine ⟨_, files, ensureOpen_open hv ho, hs, fun s' hc' => ?_⟩
    have hl := (List.getElem?_eq_some_iff.mp hs).1
    exact .stream hv hp ho (List.getElem?_set_self hl) hc'

theorem close_failed (h : Shows fd path files (some none)) :
    Files.close fd files = .error (.undefined "null FILE*") files := by
  cases h
  case failed hv _ ho => exact close_null hv ho

theorem close (h : Shows fd path files opened) (hn : opened ≠ some none) :
    ∃ files', Files.close fd files = .ok () files' ∧ Shows fd path files' none := by
  cases h
  case closed hv hp ho => exact ⟨files, close_closed hv ho, .closed hv hp ho⟩
  case failed          => exact absurd rfl hn
  case stream info k s hv hp ho hs hc =>
    exact ⟨_, close_open hv ho hs hc, .closed (withOpenedFile_apply.trans <| if_pos rfl) hp rfl⟩

end Shows
end Files

open Files (Shows)
open Files.Shows (streamOf)

-- What is left of the file to be read.
def unread (content : List Byte) : Option (Option Stream) → List Byte
  | none          => content
  | some none     => []
  | some (some s) => s.content.drop s.pos

namespace FileCall

variable {fd : BitVec 32} {path : String} {opened : Option (Option Stream)} {c : FileCall}
  {files : Files} {w : World} {trap : Option Trap} {e : Fault}

theorem outcome_ok (h : c.run files = .ok trap w) :
    c.outcome files = .ok trap w.apart ∧ c.next files = w.files := by
  rw [outcome, next, h]
  exact ⟨rfl, rfl⟩

theorem outcome_error (h : c.run files = .error e w) :
    c.outcome files = .error e w.apart ∧ c.next files = w.files := by
  rw [outcome, next, h]
  exact ⟨rfl, rfl⟩

-- A call ends in the same way in all states of the files in which the descriptor stands for the same.
def Determined (fd : BitVec 32) (path : String) (opened : Option (Option Stream)) (c : FileCall)
    (r : Outcome) (opened' : Option (Option Stream)) : Prop :=
  ∀ files, Shows fd path files opened →
    c.outcome files = r ∧ Shows fd path (c.next files) opened'

-- What a call delivers comes before what is then left.
def Consumes (path : String) (opened : Option (Option Stream)) (c : FileCall) (r : Outcome)
    (opened' : Option (Option Stream)) : Prop :=
  ∀ content, c.world.files.disk (cStr path) = some content →
    r.delivered ++ unread content opened' = unread content opened

section

variable {mem : MemPtr} (hn : c.call.name = "fd_read") (hf : c.call.val 0 = fd)
  (hm : callMemRead 0 .memory c.world.callMem = .ok mem c.world.callMem)

include hn hf hm in
theorem determined_fdRead_none
    (hs : streamOf (c.world.files.disk (cStr path)) path opened = none) :
    ∃ r opened', c.Determined fd path opened r opened' ∧ c.Consumes path opened r opened' := by
  let w := c.call.enter c.world
  have ⟨accesses, memories, hw, hok⟩ := @fdRead_null mem fd (c.call.val 1) (c.call.val 2)
    (c.call.val 3) w.memories
  have hu (content) (hd : c.world.files.disk (cStr path) = some content) :
      unread content opened = [] := by
    cases opened
    case none        => simp [streamOf, hd] at hs
    case some opened => exact congrArg (fun s => unread content (some s)) hs
  have hr (files : Files) := ImportCall.fdRead_run hn (c.start files)
  have hl (files : Files) := ImportCall.fdRead_results hn (c.start files)
  simp only [hf] at hr
  by_cases hb : ∀ j < (c.call.val 2).toInt.toNat,
      ¬0 < (iovecAt (w.memories mem).bytes (c.call.val 1).toInt j).bufLen.toInt
  case pos =>
    let w' := w.afterRead w.files memories (accesses ++ [countAccess mem (c.call.val 3) 0])
    refine ⟨.ok none w'.apart, some none, fun files h => ?outcome, fun content hd => ?content⟩
    case outcome =>
      have ⟨files', ho, hs'⟩ := h.withDisk.ensureOpen_none hs
      have ⟨ho, hx⟩ := outcome_ok <| (hr files).trans <|
        (hok (w := c.call.enter (c.start files)) rfl hm ho (hl files)).trans <| if_pos hb
      rw [ho, hx]
      exact ⟨rfl, hs'⟩
    case content =>
      rw [hu content hd]
      exact (List.append_nil _).trans <| (delivered_afterRead rfl).trans hw
  case neg =>
    let w' : World := { w.traced "fd_read" with accesses := w.accesses ++ accesses }
    refine ⟨.error (.undefined "null FILE*") w'.apart, some none, fun files h => ?_,
      fun content hd => (hu content hd).symm⟩
    have ⟨files', ho, hs'⟩ := h.withDisk.ensureOpen_none hs
    have ⟨ho, hx⟩ := outcome_error <| (hr files).trans <|
      (hok (w := c.call.enter (c.start files)) rfl hm ho (hl files)).trans <| if_neg hb
    rw [ho, hx]
    exact ⟨rfl, hs'⟩

include hn hf hm in
theorem determined_fdRead_some {s : Stream} (hc : s.closed = false)
    (hs : streamOf (c.world.files.disk (cStr path)) path opened = some s) :
    ∃ r opened', c.Determined fd path opened r opened' ∧ c.Consumes path opened r opened' := by
  let w := c.call.enter c.world
  have ⟨accesses, memories, hd, hok⟩ := @fdRead_ok mem fd (c.call.val 1) (c.call.val 2)
    (c.call.val 3) s w.memories hc
  let s' : Stream := { s with pos := s.pos + (written accesses).length }
  let w' := w.afterRead w.files memories
    (accesses ++ [countAccess mem (c.call.val 3) (written accesses).length])
  refine ⟨.ok none w'.apart, some (some s'), fun files h => ?outcome, fun content hx => ?content⟩
  case outcome =>
    have ⟨k, files', ho, hk, hs'⟩ := h.withDisk.ensureOpen_some hs
    have hr := ImportCall.fdRead_run hn (c.start files)
    rw [hf] at hr
    have ⟨ho, hx⟩ := outcome_ok <| hr.trans <| hok rfl hm ho hk <|
      ImportCall.fdRead_results hn (c.start files)
    rw [ho, hx]
    exact ⟨rfl, hs' s' hc⟩
  case content =>
    have hu : unread content opened = s.content.drop s.pos := by
      cases opened
      case none =>
        rw [streamOf, hx] at hs
        cases hs
        rfl
      case some => exact congrArg (fun s => unread content (some s)) hs
    have hw : Outcome.delivered (.ok none w'.apart) = written accesses := delivered_afterRead rfl
    have ht := List.take_append_drop (written accesses).length (s.content.drop s.pos)
    rw [List.drop_drop] at ht
    rw [hw, hu]
    exact (congrArg (· ++ _) hd).trans ht

end

theorem determined_fdRead (hn : c.call.name = "fd_read") (hf : c.call.val 0 = fd) :
    ∃ r opened', c.Determined fd path opened r opened' ∧ c.Consumes path opened r opened' := by
  let w := c.call.enter c.world
  by_cases hm : ∃ mem, callMemRead 0 .memory w.callMem = .ok mem w.callMem
  case neg =>
    have ⟨e, cm, he⟩ := @fdRead_refused fd (c.call.val 1) (c.call.val 2) (c.call.val 3) w hm
    refine ⟨.error e { w with callMem := cm }.apart, opened, fun files hs => ?_, fun _ _ => rfl⟩
    have hr := ImportCall.fdRead_run hn (c.start files)
    rw [hf] at hr
    have ⟨ho, hx⟩ := outcome_error <| hr.trans <| he _
    rw [ho, hx]
    exact ⟨rfl, hs.withDisk⟩
  case pos =>
    have ⟨mem, hm⟩ := hm
    cases hs : streamOf (c.world.files.disk (cStr path)) path opened
    case none   => exact determined_fdRead_none hn hf hm hs
    case some s =>
      by_cases hc : s.closed = false
      case pos => exact determined_fdRead_some hn hf hm hc hs
      case neg =>
        -- No state of the files shows such a stream.
        refine ⟨.error .badKind w, opened, fun files h => ?_, fun _ _ => rfl⟩
        exact absurd (h.withDisk.closed_eq_false hs) hc

theorem determined_fdClose (hn : c.call.name = "fd_close") (hf : c.call.val 0 = fd) :
    ∃ r opened', c.Determined fd path opened r opened' ∧ r.delivered = [] := by
  let w := c.call.enter c.world
  have hr (files : Files) : c.run files = ecsactSiWasiFdClose [.i32 fd]
      { w with files := { files with disk := c.world.files.disk } } := by
    rw [← hf]
    exact ImportCall.fdClose_run hn (c.start files)
  have hl := ImportCall.fdClose_results hn c.world
  have hd {files : Files} {errno} : delivered (w.afterClose files errno).apart = [] := rfl
  cases @debugTraceMethod_cases w.callMem "fd_close"
  case inr ht =>
    refine ⟨.error .assertFailed w.apart, opened, fun files hs => ?_, rfl⟩
    have ⟨ho, hx⟩ := outcome_error <| (hr files).trans <| fdClose_refused <| zoom_error ht.2
    rw [ho, hx]
    exact ⟨rfl, hs.withDisk⟩
  case inl ht =>
    have ht (files : Files) : onCallMem (debugTraceMethod "fd_close") { w with files := files } =
        .ok () (({ w with files := files } : World).traced "fd_close") :=
      zoom_ok ht.2
    by_cases hs : IsStdio fd
    case pos =>
      refine ⟨.ok none (w.afterClose w.files 1).apart, opened, fun files h => ?_, hd⟩
      have ⟨ho, hx⟩ := outcome_ok <| (hr files).trans <| fdClose_stdio (ht _) hs hl
      rw [ho, hx]
      exact ⟨rfl, h.withDisk⟩
    case neg =>
      by_cases hn : opened = some none
      case pos =>
        subst hn
        refine ⟨.error (.undefined "null FILE*") (w.traced "fd_close").apart, some none,
          fun files h => ?_, rfl⟩
        have ⟨ho, hx⟩ := outcome_error <| (hr files).trans <| fdClose_error (ht _) hs <|
          h.withDisk.close_failed
        rw [ho, hx]
        exact ⟨rfl, h.withDisk⟩
      case neg =>
        refine ⟨.ok none (w.afterClose w.files 0).apart, none, fun files h => ?_, hd⟩
        have ⟨files', hc, hs'⟩ := (@Shows.withDisk fd path files opened c.world.files.disk h).close hn
        have ⟨ho, hx⟩ := outcome_ok <| (hr files).trans <| fdClose_ok (ht _) hs hc hl
        rw [ho, hx]
        exact ⟨rfl, hs'⟩

theorem determined (hc : c.IsFor fd) :
    ∃ r opened', c.Determined fd path opened r opened' := by
  have ⟨hn, hf⟩ := hc
  cases hn
  case inl hn =>
    have ⟨r, opened', hd, _⟩ := @determined_fdRead fd path opened c hn hf
    exact ⟨r, opened', hd⟩
  case inr hn =>
    have ⟨r, opened', hd, _⟩ := @determined_fdClose fd path opened c hn hf
    exact ⟨r, opened', hd⟩

-- Two states in which a descriptor stands for the same.
def Same (fd : BitVec 32) (path : String) (files files' : Files) : Prop :=
  ∃ opened, Shows fd path files opened ∧ Shows fd path files' opened

theorem unwinding :
    List.Unwinding FileCall.next FileCall.outcome (Files.Closed fd) (IsFor fd) (Same fd path) where
  next {files files' c} h hc := by
    have ⟨opened, hs, ht⟩ := h
    have ⟨_, opened', hd⟩ := @determined fd path opened c hc
    exact ⟨opened', (hd _ hs).2, (hd _ ht).2⟩
  observe {files files' c} h hc := by
    have ⟨opened, hs, ht⟩ := h
    have ⟨_, _, hd⟩ := @determined fd path opened c hc
    exact (hd _ hs).1.trans (hd _ ht).1.symm
  rested h hr := by
    have ⟨_, hs, ht⟩ := h
    exact ht.closed_iff.mpr <| hs.closed_iff.mp hr
  rest hs ht hr hr' := by
    have ⟨_, _, hs⟩ := hs
    have ⟨_, _, ht⟩ := ht
    exact ⟨none, hs.closed_iff.mp hr ▸ hs, ht.closed_iff.mp hr' ▸ ht⟩

variable {ι : Type} {cs : List (ι × FileCall)} {content : List Byte}

-- Reads deliver one part of the file after the other, up to a last call which may be a close.
theorem received_isPrefix (hs : Shows fd path files opened) (hc : ∀ x ∈ cs, x.2.IsFor fd)
    (hd : ∀ x ∈ cs, x.2.world.files.disk (cStr path) = some content)
    (hr : ∀ x ∈ cs.dropLast, x.2.call.name = "fd_read") :
    received (outcomes cs files) <+: unread content opened := by
  induction cs generalizing files opened
  case nil => exact List.nil_prefix
  case cons x cs hi =>
    have ⟨i, c⟩ := x
    have ⟨hx, hc⟩ := List.forall_mem_cons.mp hc
    have ⟨hy, hd⟩ := List.forall_mem_cons.mp hd
    by_cases hn : c.call.name = "fd_read"
    case pos =>
      have ⟨r, opened', ht, hu⟩ := @determined_fdRead fd path opened c hn hx.2
      have ⟨ho, hs⟩ := ht files hs
      have hi := hi hs hc hd fun x hx => by
        have hn : cs ≠ [] := fun h => by simp [h] at hx
        exact hr x <| List.dropLast_cons_of_ne_nil hn ▸ List.mem_cons_of_mem _ hx
      have he : received (outcomes ((i, c) :: cs) files) =
          r.delivered ++ received (outcomes cs (c.next files)) := ho ▸ rfl
      rw [he, ← hu content hy]
      exact List.prefix_append_right_inj _ |>.mpr hi
    case neg =>
      -- The close is the last of the calls.
      have hl : cs = [] := by
        cases cs
        case nil  => rfl
        case cons => exact absurd (hr _ <| List.mem_cons_self) hn
      subst hl
      have ⟨r, _, ht, hr⟩ := @determined_fdClose fd path opened c (hx.1.resolve_left hn) hx.2
      have ⟨ho, _⟩ := ht files hs
      have he : received (outcomes [(i, c)] files) = r.delivered ++ [] := ho ▸ rfl
      rw [he, hr]
      exact List.nil_prefix

-- Instances which take turns get what each gets alone, and the file from its start on.
theorem outcomes_filter [DecidableEq ι] {info : VirtualFileInfo}
    (hv : files.virtualFiles fd = some info) (ho : info.openedFile = none)
    (hc : ∀ x ∈ cs, x.2.IsFor fd) (ht : TakesTurns fd cs files) (i : ι) :
    (outcomes cs files).filter (·.1 = i) = outcomes (cs.filter (·.1 = i)) files ∧
    ∀ content, (∀ x ∈ cs, x.2.world.files.disk (cStr info.realPath) = some content) →
      (∀ x ∈ (cs.filter (·.1 = i)).dropLast, x.2.call.name = "fd_read") →
        received ((outcomes cs files).filter (·.1 = i)) <+: content := by
  have hs : Shows fd info.realPath files none := .closed hv rfl ho
  have hf := unwinding.observations_filter (i := i) ⟨none, hs, hs⟩ ⟨info, hv, ho⟩ hc ht
  refine ⟨hf, fun content hd hr => ?_⟩
  have hm {x} (hx : x ∈ cs.filter (·.1 = i)) := List.mem_of_mem_filter hx
  exact hf ▸ received_isPrefix hs (fun x hx => hc x (hm hx)) (fun x hx => hd x (hm hx)) hr

end FileCall

theorem fdClose_mem : ("fd_close", ⟨wasmFunctypeNew11 .i32 .i32, ecsactSiWasiFdClose⟩) ∈
    importTables := by
  simp [importTables, guestWasiModuleImports]

def ImportCall.fdClose (fd : BitVec 32) : ImportCall where
  name  := "fd_close"
  func  := ⟨wasmFunctypeNew11 .i32 .i32, ecsactSiWasiFdClose⟩
  mem   := fdClose_mem
  args  := [.i32 fd]
  typed := typed_single fd

-- A file of 6 bytes, which instances with different memories read 4 bytes of.

def sharedFiles : Files :=
  Files.allowed { disk := fun _ => some [1, 2, 3, 4, 5, 6] } "shared" "x"

def sharedWorld (mem : MemPtr) : World :=
  World.stored { systemWorld true with
    callMem := ⟨true, some (CallMem.systemInfo true mem 2)⟩
    files   := sharedFiles
  } mem 0 [16, 0, 0, 0, 4, 0, 0, 0]

def readShared (mem : MemPtr) : FileCall where
  call  := .fdRead 11 0 1 8
  world := sharedWorld mem

def closeShared (mem : MemPtr) : FileCall where
  call  := .fdClose 11
  world := sharedWorld mem

namespace FileCall

theorem isFor_readShared (mem : MemPtr) : (readShared mem).IsFor 11 :=
  ⟨.inl rfl, rfl⟩

theorem isFor_closeShared (mem : MemPtr) : (closeShared mem).IsFor 11 :=
  ⟨.inr rfl, rfl⟩

-- The second of two instances goes on where the first one has stopped.
theorem outcomes_filter_ne : ∃ cs : List (Bool × FileCall), (∀ x ∈ cs, x.2.IsFor 11) ∧
    sharedFiles.Closed 11 ∧ (outcomes cs sharedFiles).filter (·.1 = true) ≠
      outcomes (cs.filter (·.1 = true)) sharedFiles := by
  refine ⟨[(false, readShared 1), (true, readShared 2)], ?calls, ⟨_, rfl, rfl⟩, fun h => ?differ⟩
  case calls =>
    simp only [List.forall_mem_cons]
    exact ⟨isFor_readShared 1, isFor_readShared 2, nofun⟩
  case differ => exact absurd (congrArg received h) <| by decide

theorem outcomes_filter_shared :
    let cs := [(false, readShared 1), (false, closeShared 1), (true, readShared 2)]
    (outcomes cs sharedFiles).filter (·.1 = true) =
      outcomes (cs.filter (·.1 = true)) sharedFiles ∧
    ∀ content, (∀ x ∈ cs, x.2.world.files.disk (cStr "shared") = some content) →
      (∀ x ∈ (cs.filter (·.1 = true)).dropLast, x.2.call.name = "fd_read") →
        received ((outcomes cs sharedFiles).filter (·.1 = true)) <+: content := by
  intro cs
  have hc : ∀ x ∈ cs, x.2.IsFor 11 := by
    simp only [cs, List.forall_mem_cons]
    exact ⟨isFor_readShared 1, isFor_closeShared 1, isFor_readShared 2, nofun⟩
  have ht : TakesTurns 11 cs sharedFiles :=
    ⟨fun _ => ⟨_, rfl, rfl⟩, fun h => absurd rfl h, fun _ => ⟨_, rfl, rfl⟩, trivial⟩
  exact @outcomes_filter 11 sharedFiles _ cs _ (Files.newInfo "shared" "x" 11) rfl rfl hc ht true

end FileCall
end Ecsact
