import EcsactSiWasmer.Execution.Theorems.Steps

open EStateM Ecsact.World Ecsact.CallMem

namespace Ecsact

-- What the module of the runs below imports.
def plainImports : List MinstImport := [
  ⟨"env", "ecsact_system_execution_context_action"⟩,
  ⟨"env", "ecsact_system_execution_context_parent"⟩,
  ⟨"env", "ecsact_system_execution_context_entity"⟩,
  ⟨"wasi_snapshot_preview1", "fd_write"⟩,
  ⟨"wasi_snapshot_preview1", "fd_read"⟩,
  ⟨"wasi_snapshot_preview1", "fd_fdstat_get"⟩,
  ⟨"wasi_snapshot_preview1", "environ_sizes_get"⟩
]

-- Its exports: each instance has a memory of its own, and the function of one system.
def plainMemory (id : Nat) : MinstExport :=
  ⟨"memory", .memory, BitVec.ofNat 64 (id + 1)⟩

def plainRun (id : Nat) : MinstExport :=
  ⟨"run", .func, BitVec.ofNat 64 (id + 101)⟩

def plainBuild (id : Nat) : Build where
  module  := .ok { imports := plainImports, exports := [⟨"memory", .memory⟩, ⟨"run", .func⟩] }
  externs := .ok [(plainMemory id).ptr, (plainRun id).ptr]

def plainSystems : List (SystemId × String) :=
  [(0, "run")]

def plainImpls (id : Nat) : SystemImpls where
  id             := id
  minst          := ⟨plainImports, [plainMemory id, plainRun id]⟩
  sysImplExports := Function.update (fun _ => none) 0 (some (plainRun id))
  memory         := plainMemory id

def brokenBuild : Build where
  module  := .error "unexpected end"
  externs := .error ""

namespace Program

variable {systems : List (SystemId × String)} {builds : Nat → Build} {p p' : Program}
  {thread : ThreadId} {err : SiError}

-- A failed load keeps the pool and the registrations if it has not got to the pool, or if there is
-- none and it does not make an instance.
theorem load_keeps_iff (hp : Reachable p) (h : ecsactSiWasmLoad thread systems builds p = .ok err p')
    (he : err ≠ .ok) : (p'.allMinsts = p.allMinsts ∧ p'.registered = p.registered) ↔
      p.setSystemExecutionImpl = false ∨
        (p.allMinsts = [] ∧ (builds 0).error systems ≠ none) := by
  cases ecsactSiWasmLoad_ok h
  case unset hs => exact iff_of_true ⟨rfl, rfl⟩ <| .inl hs
  case done     => exact absurd rfl he
  case failed made hs hl hm hn hf hx =>
    have hq : p'.allMinsts = made ∧ p'.registered = p.registered := by
      obtain ⟨_, _, _, rfl⟩ := hx
      exact ⟨List.nil_append made, rfl⟩
    rw [hq.1, hq.2, hs]
    simp only [and_true, Bool.true_eq_false, false_or]
    cases made
    case nil =>
      have hf : (builds 0).error systems = some err := hf
      simp [hf, eq_comm]
    case cons m made =>
      have h₀ : (builds 0).error systems = none := hn 0 <| Nat.zero_lt_succ _
      -- An instance which the load has made was not in the pool before.
      have hm : p.created ≤ m.id := (hm.lt <| List.mem_cons_self ..).1
      have hp : m ∉ p.allMinsts := fun hc => by
        have hi := hp.numbered.pool m hc
        omega
      have hc : m :: made ≠ p.allMinsts := fun hc => hp <| hc ▸ List.mem_cons_self ..
      simp [h₀, hc]

-- The program with a number of instances of the module.
def filled (p : Program) (n : Nat) : Program :=
  { p with allMinsts := (List.range n).map plainImpls, created := n }

section

variable (hw : p.world.callMem.info = none) (hc : p.callMemInfo = fun _ => none)

include hw hc

theorem put_view : p.put thread (p.view thread) = p := by
  obtain ⟨⟨_, ⟨_, _⟩, _, _, _, _, _, _⟩, _, _, _, _, _, _, _, _, _, _, _, _⟩ := p
  cases hw
  cases hc
  simp [put, view]

-- The call memory of an `_initialize` is gone in the end.
theorem clear_put {c : CallMem} (hn : c.ndebug = p.world.callMem.ndebug) :
    onThread thread (onCallMem (setCallMemData none 0))
      (p.put thread { p.world with callMem := c }) = .ok () p := by
  have hz := @zoom_ok _ _ _ _ (view thread) (put thread) (onCallMem (setCallMemData none 0)) () _
    (p.put thread { p.world with callMem := c }) <| zoom_ok (a := ()) (s := ⟨c.ndebug, none⟩) rfl
  refine hz.trans <| congrArg (Result.ok _) ?_
  obtain ⟨⟨_, ⟨_, _⟩, _, _, _, _, _, _⟩, _, _, _, _, _, _, _, _, _, _, _, _⟩ := p
  cases hw
  cases hc
  cases hn
  simp [put, view]

theorem loadMinst_filled (n : Nat) :
    loadMinst thread plainSystems (plainBuild n) (p.filled n) = .ok none (p.filled (n + 1)) := by
  let m := plainImpls n
  let ndebug := p.world.callMem.ndebug
  let c : CallMem := ⟨ndebug, some (initializeInfo ndebug m.memory.ptr)⟩
  let p₁ := (p.filled n).put thread { p.world with callMem := c }
  have h₁ : onThread thread (Minst.create (plainBuild n)) (p.filled n) =
      .ok (.ok m.minst) (p.filled n) :=
    (zoom_ok rfl).trans <| congrArg (Result.ok _) <| put_view (p := p.filled n) hw hc
  have h₂ : onThread thread (onCallMem (enterInitialize m.memory.ptr)) (p.filled n) = .ok () p₁ :=
    zoom_ok <| zoom_ok <| enterInitialize_eq_ok.mpr ⟨fun _ => congrFun hc thread, rfl⟩
  have h₃ : onThread thread (m.minst.callInitialize (plainBuild n).initRun) p₁ = .ok none p₁ := by
    refine (zoom_ok rfl).trans <| congrArg (Result.ok _) ?_
    simp [p₁, put, view, c]
  have h₄ : onThread thread (onCallMem (setCallMemData none 0)) p₁ = .ok () (p.filled n) :=
    clear_put (p := p.filled n) hw hc rfl
  have hs : getSystemImplExports m.minst plainSystems (fun _ => none) = .ok m.sysImplExports := rfl
  have hm : m.minst.exports.find? (·.kind = .memory) = some m.memory := rfl
  have ha : assert (some m.memory).isSome (p.filled n) = .ok () (p.filled n) := by
    simp [assert, bind_ok (get_apply _), pure_apply]
  simp only [loadMinst, bind_ok h₁, hs, hm, bind_ok ha, bind_ok h₂, bind_ok h₃, bind_ok h₄]
  simp [emplaceBack, bind_ok (modify_apply _ _), pure_apply, filled, List.range_succ, m, plainImpls]

theorem loadLoop_filled (k n : Nat) :
    loadLoop thread plainSystems plainBuild k n (p.filled n) = .ok none (p.filled (n + k)) := by
  induction k generalizing n
  case zero => rfl
  case succ k hi =>
    have hn : n + 1 + k = n + (k + 1) := by omega
    exact (bind_ok (loadMinst_filled hw hc n)).trans <| hn ▸ hi (n + 1)

-- A load of the module succeeds.
theorem load_filled (hs : p.setSystemExecutionImpl = true) (hn : p.created = 0) :
    ecsactSiWasmLoad thread plainSystems plainBuild p =
      .ok .ok { p.filled 100 with registered := p.registered ++ [0] } := by
  have h₀ : { p with allMinsts := [] } = p.filled 0 := by simp [filled, hn]
  have hl : loadLoop thread plainSystems plainBuild 100 0 { p with allMinsts := [] } =
      .ok none (p.filled 100) :=
    h₀ ▸ loadLoop_filled hw hc 100 0
  rw [ecsactSiWasmLoad, bind_ok (get_apply p), if_neg (by simp [hs]), bind_ok (modify_apply _ p)]
  exact (bind_ok hl).trans rfl

end

-- A release build of the program with a number of instances of the module.
def plain (n : Nat) : Program :=
  { initial .inert true with
    allMinsts := (List.range n).map plainImpls
    created   := n
    threads   := [0]
  }

-- The program after its first load.
def loaded : Program :=
  { plain 100 with registered := [0] }

theorem load_plain :
    ecsactSiWasmLoad 0 plainSystems plainBuild (plain 0) = .ok .ok loaded :=
  load_filled rfl rfl rfl rfl

theorem plain_starts : Starts (plain 0) :=
  ⟨rfl, rfl, rfl, rfl⟩

theorem loaded_reachable : Reachable loaded :=
  ⟨plain 0, plain_starts, .single ⟨.load 0 plainSystems plainBuild, trivial,
    ⟨List.mem_singleton_self 0, by decide⟩, bind_ok load_plain⟩⟩

theorem broken_fails : ∃ p', ecsactSiWasmLoad 0 [] (fun _ => brokenBuild) (plain 0) =
    .ok .compileFail p' :=
  ⟨_, rfl⟩

theorem load_keeps_iff_broken : ∃ p',
    ecsactSiWasmLoad 0 [] (fun _ => brokenBuild) (plain 0) = .ok .compileFail p' ∧
    ((p'.allMinsts = (plain 0).allMinsts ∧ p'.registered = (plain 0).registered) ↔
      (plain 0).setSystemExecutionImpl = false ∨
        ((plain 0).allMinsts = [] ∧ brokenBuild.error [] ≠ none)) :=
  have ⟨p', h⟩ := broken_fails
  ⟨p', h, load_keeps_iff ⟨plain 0, plain_starts, .refl⟩ h nofun⟩

-- A broken module takes the instances of the one before it out of the pool.
theorem broken_clears : ∃ p', Reachable loaded ∧
    ecsactSiWasmLoad 0 plainSystems (fun _ => brokenBuild) loaded = .ok .compileFail p' ∧
    p'.allMinsts ≠ loaded.allMinsts :=
  ⟨_, loaded_reachable, rfl, fun h => by
    have h : 0 = ((List.range 100).map plainImpls).length := congrArg List.length h
    simp at h⟩

end Program
end Ecsact
