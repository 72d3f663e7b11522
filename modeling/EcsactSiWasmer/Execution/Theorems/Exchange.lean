import EcsactSiWasmer.Execution.Exchange
import EcsactSiWasmer.Execution.Theorems.Account
import EcsactSiWasmer.Execution.Theorems.Gathering
import EcsactSiWasmer.Execution.Theorems.Grants
import EcsactSiWasmer.Execution.Theorems.Hosting
import EcsactSiWasmer.Execution.Theorems.Totality
import EcsactSiWasmer.Execution.Theorems.Transactions

open EStateM Ecsact.World Ecsact.CallMem

namespace Ecsact

-- No callback but that of `fd_write` reaches the logger.
theorem pushless_logger : Pushless (Keeps World.logger) where
  preorder   := inferInstance
  trace      := Within.zoom (R := fun _ _ => True) (fun _ => trivial) fun _ _ _ => rfl
  read       := Within.zoom (R := fun _ _ => True) (fun _ => trivial) fun _ _ _ => rfl
  alloc      := Within.zoom (R := fun _ _ => True) (fun _ => trivial) fun _ _ _ => rfl
  loadBytes  := fun {ptr _} => by cases ptr <;> exact fun _ => rfl
  storeBytes := fun {ptr _} => by cases ptr <;> exact fun _ => rfl
  called     := rfl
  setResult  := fun w => by
    simp only [World.setResult]
    rw [bind_ok (get_apply w)]
    split <;> rfl

namespace ImportCall

variable {call : ImportCall} {w : World} {mem : MemPtr}

theorem pushes_eq (hm : callMemRead 0 .memory w.callMem = .ok mem w.callMem)
    (hn : call.name = "fd_write") (hf : call.val 0 = wasiStderrFd ∨ call.val 0 = wasiStdoutFd) :
    call.pushes w = (writeBuffers (call.memory w mem).bytes (call.val 1).toInt 0
      (call.val 2).toInt.toNat).map (stdLevel (call.val 0), ·) := by
  rw [pushes, if_pos ⟨hn, hf⟩, hm]

theorem pushes_of_refused (hm : ¬∃ mem, callMemRead 0 .memory w.callMem = .ok mem w.callMem) :
    call.pushes w = [] := by
  rw [pushes]
  split
  case isFalse => rfl
  case isTrue =>
    cases @callMemRead_cases w.callMem 0 .memory
    case inl h => exact absurd h hm
    case inr h =>
      have ⟨_, _, h⟩ := h
      rw [h]

theorem logger_of_refused {name : String} {f : MemPtr → CallbackM (Option Trap)}
    (hr : call.run w = withMemory name f (call.enter w))
    (hm : ¬∃ mem, callMemRead 0 .memory w.callMem = .ok mem w.callMem) :
    (call.run w).state.logger = w.logger := by
  have ⟨_, _, _, he, hw⟩ := (@withMemory_cases _ name f (call.enter w)).resolve_left hm
  rw [hr, he]
  cases hw
  all_goals
    rename_i hw
    subst hw
    rfl

theorem run_logger : (call.run w).state.logger = w.logger.pushAll (call.pushes w) := by
  by_cases hn : call.name = "fd_write"
  case neg =>
    have hf {α : Type} {x : FilesM α} : Within (Keeps World.logger) (onFiles x) :=
      Within.zoom (R := fun _ _ => True) (fun _ => trivial) fun _ _ _ => rfl
    rw [pushes, if_neg fun h => hn h.1]
    exact pushless_logger.callback hf hf hf call.mem hn (call.enter w)
  case pos =>
    have hr := fdWrite_run (w := w) hn
    have hl : 0 < (call.enter w).results.length := by simp [enter_results hn rfl rfl]
    by_cases hm : ∃ mem, callMemRead 0 .memory w.callMem = .ok mem w.callMem
    case neg =>
      rw [pushes_of_refused hm]
      exact logger_of_refused (hr.trans <| congrFun fdWrite_eq _) hm
    case pos =>
      have ⟨mem, hm⟩ := hm
      by_cases hf : call.val 0 = wasiStderrFd ∨ call.val 0 = wasiStdoutFd
      case neg =>
        have hw := @fdWrite_unknown mem (call.val 0) (call.val 1) (call.val 2) (call.val 3)
          (call.enter w) hm hl hf
        rw [hr, hw, pushes, if_neg fun h => hf h.2]
        rfl
      case pos =>
        have hw := @fdWrite_ok mem (call.val 0) (call.val 1) (call.val 2) (call.val 3)
          (call.enter w) hm hl hf _ rfl
        rw [hr, hw, pushes_eq hm hn hf, Logger.pushAll, List.foldl_map]
        rfl

end ImportCall

theorem account_logger : Account fun w begun w' =>
    w'.logger = w.logger.pushAll (begun.flatMap fun b => b.1.pushes b.2) where
  recounts := {
    nil _ := rfl
    append h₁ h₂ := by
      rw [h₂, h₁, List.flatMap_append, Logger.pushAll, Logger.pushAll, Logger.pushAll,
        List.foldl_append]
  }
  call call w  := by simpa using call.run_logger
  called _ _ _ := rfl
  callMem _ _  := rfl

namespace Logger

variable {L : Type} [LinearOrder L] {level : L} {strs : List (L × List Byte)}

omit [LinearOrder L] in
theorem snapshot_not_mem_pushes : Op.snapshot ∉ strs.map fun s => Op.push s.1 s.2 := by
  simp

-- Pushes for one level.
theorem pushed_map {l : L} {bufs : List (List Byte)} :
    pushed level ((bufs.map (l, ·)).map fun s => Op.push s.1 s.2) =
      if l = level then bufs.flatten else [] := by
  rw [pushed, List.map_map, List.flatMap_map]
  split
  case isTrue h  =>
    rw [List.flatten_eq_flatMap]
    exact congrArg (bufs.flatMap ·) <| funext fun str => if_pos h
  case isFalse h => simp [h]

end Logger

theorem ImportCall.Prints.pushed {call : ImportCall} {w : World} {mem : MemPtr}
    (h : call.Prints w mem) (level : LogLevel) :
    Logger.pushed level ((call.pushes w).map fun s => .push s.1 s.2) =
      if stdLevel (call.val 0) = level then call.payload w mem else [] := by
  have hl := writeBuffers_flatten h.args.range'_map fun io hi =>
    have hb := h.args.buffers io hi
    ⟨hb.1, hb.2.1⟩
  rw [ImportCall.pushes_eq h.active h.name h.stream, Logger.pushed_map, hl]
  split <;> rfl

theorem footprint_served : Footprint fun w w' => Files.Served w.files w'.files where
  primitives := primitives_of_files (R := Files.Served) (fun _ => Files.served_ensureOpen)
    (fun _ _ => Files.served_fread) fun _ => Files.served_close
  enter _ _   := refl_of Files.Served _
  callMem _ _ := refl_of Files.Served _

namespace Program

variable {grants : List Grant} {ops : List (Logger.Op LogLevel)}
  {delivered : List (Logger.Delivery LogLevel)} {p p' : Program} {event : Event}

theorem Step.logger (hs : Step p event p') :
    p'.world.logger = p.world.logger.pushAll (event.output p) :=
  hs.account account_logger

theorem allow_eq_ok {realPath virtualPath : String} {fd : BitVec 32} :
    ecsactSiWasmAllowFileReadAccess realPath virtualPath p = .ok fd p' ↔ ∃ files,
      Files.allowFileReadAccess realPath virtualPath p.world.files = .ok fd files ∧
        p' = { p with world := { p.world with files := files } } := by
  simp [ecsactSiWasmAllowFileReadAccess, onFiles, zoom_eq_ok]

namespace Exchange

theorem loggerMatches (h : Exchange grants ops delivered p) : Logger.Matches p.world.logger ops := by
  induction h
  case start hl      => exact hl ▸ Logger.initial_matches
  case step hs hi    => exact hs.logger ▸ hi.pushAll _
  case consume hr hi => exact Logger.Event.run_matches hi hr
  case elsewhere hi  => exact hi
  case allow ha hi   =>
    obtain ⟨_, _, rfl⟩ := allow_eq_ok.mp ha
    exact hi

theorem delivered_eq (h : Exchange grants ops delivered p) (level : LogLevel) :
    delivered.filter (·.logLevel = level) = (Logger.chunks level [] ops).flatMap fun t =>
      (Logger.messages t).map fun m => Logger.deliver ⟨level, m⟩ := by
  induction h
  case start                       => rfl
  case elsewhere hi | allow _ _ hi => exact hi
  case step hi =>
    rw [hi, Logger.chunks_append, Logger.chunks_pushes Logger.snapshot_not_mem_pushes,
      List.append_nil]
  case consume h hr hi =>
    rw [List.filter_append, hi, Logger.chunks_append, List.flatMap_append]
    congr 1
    convert Logger.Event.deliveries_level h.loggerMatches hr level
    rfl

theorem represents (h : Exchange grants ops delivered p) :
    Files.Represents grants p.world.files := by
  induction h
  case start hf _   => exact hf ▸ .start
  case step hs hi   => exact hi.served <| hs.world footprint_served
  case consume hi   => exact hi
  case elsewhere hi => exact hi.elsewhere
  case allow ha hi  =>
    obtain ⟨files, hf, rfl⟩ := allow_eq_ok.mp ha
    have hn := hi.lt_of_allow_ok hf
    cases (hi.allow_eq hn).symm.trans hf
    exact hi.allow hn

-- What guests and consumers write is split exactly once, whatever the threads and the host do, and
-- guests write what their buffers contain.
theorem delivers_written (h : Exchange grants ops delivered p) :
    (∀ level, Conserves ops delivered p level) ∧
      ∀ event : Event, ∀ b ∈ event.begun p, ∀ mem, b.1.Prints b.2 mem → ∀ level,
        Logger.pushed level ((b.1.pushes b.2).map fun s => .push s.1 s.2) =
          if stdLevel (b.1.val 0) = level then b.1.payload b.2 mem else [] := by
  refine ⟨fun level => ⟨h.delivered_eq level, ?_⟩, fun _ _ _ _ hp level => hp.pushed level⟩
  rw [h.loggerMatches.text]
  exact Logger.flatten_chunks

end Exchange

-- The program of a build with asserts before anything has happened to it.
def booted : Program :=
  { checked with world := { checked.world with logger := Logger.initial } }

-- The line "ok" in two buffers, which the guest stores before it writes them.
def printed : LinearMemory :=
  { (World.idle .inert false).memories (plainMemory 1).ptr with
    bytes := ByteStore.zeros.write 0
      [16, 0, 0, 0, 1, 0, 0, 0, 17, 0, 0, 0, 2, 0, 0, 0, 111, 107, 10]
  }

def printLine : ImportCall :=
  { ImportCall.fdWrite 1 0 2 24 with stores := (Function.update · (plainMemory 1).ptr printed) }

theorem memory_printLine {w : World} : printLine.memory w (plainMemory 1).ptr = printed := by
  simp [ImportCall.memory, printLine]

-- The host grants a file, and the module is loaded.
theorem enter_booted : ∃ p₀ p₁ p₂ r,
    ecsactSiWasmAllowFileReadAccess "a.txt" "a" booted = .ok 11 p₀ ∧
    Step p₀ (.load 0 plainSystems plainBuild) p₁ ∧ (Event.enter 0 2).Enabled p₁ ∧
    enterSystemImpl 0 2 p₁ = .ok r p₂ ∧ r.2 = 8 ∧ p₂.running = [(0, plainImpls 1)] ∧
    ImportCall.FindsMemory (p₂.view 0) (plainMemory 1).ptr ∧
    (p₂.world.memories (plainMemory 1).ptr).size = 65536 :=
  ⟨_, _, _, _, rfl, ⟨⟨List.mem_singleton_self 0, by decide⟩, bind_ok <| load_filled rfl rfl rfl rfl⟩,
    ⟨List.mem_singleton_self 0, by decide⟩, rfl, rfl, rfl, rfl, rfl⟩

theorem exists_exchange : ∃ ops p, Exchange [⟨"a.txt", "a", 11⟩] ops [] p ∧
    p.running = [(0, plainImpls 1)] ∧ ImportCall.FindsMemory (p.view 0) (plainMemory 1).ptr := by
  have ⟨_, _, p, _, h₀, h₁, he, h₂, _, hr, hm, _⟩ := enter_booted
  have hs : Exchange [] [] [] booted :=
    @Exchange.start _ (fun _ => none) ⟨rfl, rfl, rfl, rfl⟩ rfl rfl
  exact ⟨_, p, ((hs.allow h₀).step h₁).step ⟨he, bind_ok h₂⟩, hr, hm⟩

theorem prints_printLine {w : World} (hm : ImportCall.FindsMemory w (plainMemory 1).ptr) :
    printLine.Prints w (plainMemory 1).ptr where
  name   := rfl
  stream := .inr rfl
  active := hm
  args   := by
    have hi : iovecs printed.bytes 0 2 = [⟨16, 1⟩, ⟨17, 2⟩] := by decide
    rw [memory_printLine]
    refine ⟨⟨by decide, fun io hio => ?buffers⟩, by decide⟩
    rw [show printLine.val 1 = 0 from rfl, show printLine.val 2 = 2 from rfl, hi] at hio
    revert io
    simp only [List.forall_mem_cons]
    exact ⟨by decide, by decide, nofun⟩

-- What the guest has written is stored, as no consumer has asked for it.
theorem printed_delivers_written : ∃ ops p, Conserves ops [] p .info ∧
    printLine.payload (p.view 0) (plainMemory 1).ptr = [111, 107, 10] ∧
    Logger.pushed .info ((printLine.pushes (p.view 0)).map fun s => .push s.1 s.2) =
      [111, 107, 10] := by
  have ⟨ops, p, h, _, hm⟩ := exists_exchange
  have ⟨hc, hw⟩ := h.delivers_written
  have hp : printLine.payload (p.view 0) (plainMemory 1).ptr = [111, 107, 10] := by
    rw [ImportCall.payload, memory_printLine]
    decide
  refine ⟨ops, p, hc .info, hp, ?_⟩
  rw [hw (.guest 0 printLine) _ (List.mem_singleton_self _) _ (prints_printLine hm)]
  exact hp

end Program
end Ecsact
