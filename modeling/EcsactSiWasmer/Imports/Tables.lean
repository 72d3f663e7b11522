import EcsactSiWasmer.Imports.Context
import EcsactSiWasmer.Imports.Wasi

namespace Ecsact

-- `minst_import_resolve_func`
structure ImportResolveFunc where
  funcType     : FuncType
  funcCallback : Callback

open ValKind

def guestEnvModuleImports : List (String × ImportResolveFunc) := [
  ("ecsact_system_execution_context_action",
    ⟨wasmFunctypeNew20 i32 i32, wasmEcsactSystemExecutionContextAction⟩),
  ("ecsact_system_execution_context_parent",
    ⟨wasmFunctypeNew11 i32 i32, wasmEcsactSystemExecutionContextParent⟩),
  ("ecsact_system_execution_context_same",
    ⟨wasmFunctypeNew21 i32 i32 i32, wasmEcsactSystemExecutionContextSame⟩),
  ("ecsact_system_execution_context_get",
    ⟨wasmFunctypeNew40 i32 i32 i32 i32, wasmEcsactSystemExecutionContextGet⟩),
  ("ecsact_system_execution_context_update",
    ⟨wasmFunctypeNew40 i32 i32 i32 i32, wasmEcsactSystemExecutionContextUpdate⟩),
  ("ecsact_system_execution_context_has",
    ⟨wasmFunctypeNew30 i32 i32 i32, wasmEcsactSystemExecutionContextHas⟩),
  ("ecsact_system_execution_context_generate",
    ⟨wasmFunctypeNew40 i32 i32 i32 i32, wasmEcsactSystemExecutionContextGenerate⟩),
  ("ecsact_system_execution_context_add",
    ⟨wasmFunctypeNew30 i32 i32 i32, wasmEcsactSystemExecutionContextAdd⟩),
  ("ecsact_system_execution_context_remove",
    ⟨wasmFunctypeNew30 i32 i32 i32, wasmEcsactSystemExecutionContextRemove⟩),
  ("ecsact_system_execution_context_other",
    ⟨wasmFunctypeNew21 i32 i32 i32, wasmEcsactSystemExecutionContextOther⟩),
  ("ecsact_system_execution_context_entity",
    ⟨wasmFunctypeNew11 i32 i32, wasmEcsactSystemExecutionContextEntity⟩),
  ("ecsact_system_execution_context_stream_toggle",
    ⟨wasmFunctypeNew40 i32 i32 i32 i32, wasmEcsactSystemExecutionContextStreamToggle⟩)
]

def guestWasiModuleImports : List (String × ImportResolveFunc) := [
  ("proc_exit", ⟨wasmFunctypeNew10 i32, ecsactSiWasiProcExit⟩),
  ("fd_seek", ⟨wasmFunctypeNew41 i32 i64 i32 i32 i32, ecsactSiWasiFdSeek⟩),
  ("fd_write", ⟨wasmFunctypeNew41 i32 i32 i32 i32 i32, ecsactSiWasiFdWrite⟩),
  ("fd_read", ⟨wasmFunctypeNew41 i32 i32 i32 i32 i32, ecsactSiWasiFdRead⟩),
  ("fd_close", ⟨wasmFunctypeNew11 i32 i32, ecsactSiWasiFdClose⟩),
  ("environ_sizes_get", ⟨wasmFunctypeNew21 i32 i32 i32, ecsactSiWasiEnvironSizesGet⟩),
  ("environ_get", ⟨wasmFunctypeNew21 i32 i32 i32, ecsactSiWasiEnvironGet⟩),
  ("fd_fdstat_get", ⟨wasmFunctypeNew21 i32 i32 i32, ecsactSiWasiFdFdstatGet⟩)
]

-- One case for each function of the WASI module.
theorem wasi_cases {name : String} {f : ImportResolveFunc} {motive : Prop}
    (h : (name, f) ∈ guestWasiModuleImports)
    (procExit : name = "proc_exit" → f = ⟨wasmFunctypeNew10 i32, ecsactSiWasiProcExit⟩ → motive)
    (fdSeek : name = "fd_seek" →
      f = ⟨wasmFunctypeNew41 i32 i64 i32 i32 i32, ecsactSiWasiFdSeek⟩ → motive)
    (fdWrite : name = "fd_write" →
      f = ⟨wasmFunctypeNew41 i32 i32 i32 i32 i32, ecsactSiWasiFdWrite⟩ → motive)
    (fdRead : name = "fd_read" →
      f = ⟨wasmFunctypeNew41 i32 i32 i32 i32 i32, ecsactSiWasiFdRead⟩ → motive)
    (fdClose : name = "fd_close" → f = ⟨wasmFunctypeNew11 i32 i32, ecsactSiWasiFdClose⟩ → motive)
    (environSizesGet : name = "environ_sizes_get" →
      f = ⟨wasmFunctypeNew21 i32 i32 i32, ecsactSiWasiEnvironSizesGet⟩ → motive)
    (environGet : name = "environ_get" →
      f = ⟨wasmFunctypeNew21 i32 i32 i32, ecsactSiWasiEnvironGet⟩ → motive)
    (fdFdstatGet : name = "fd_fdstat_get" →
      f = ⟨wasmFunctypeNew21 i32 i32 i32, ecsactSiWasiFdFdstatGet⟩ → motive) : motive := by
  simp only [guestWasiModuleImports, List.mem_cons, Prod.mk.injEq, List.not_mem_nil, or_false] at h
  rcases h with ⟨hn, h⟩ | ⟨hn, h⟩ | ⟨hn, h⟩ | ⟨hn, h⟩ | ⟨hn, h⟩ | ⟨hn, h⟩ | ⟨hn, h⟩ | ⟨hn, h⟩
  all_goals first
    | exact procExit hn h
    | exact fdSeek hn h
    | exact fdWrite hn h
    | exact fdRead hn h
    | exact fdClose hn h
    | exact environSizesGet hn h
    | exact environGet hn h
    | exact fdFdstatGet hn h

-- The entries of both tables.
def importTables : List (String × ImportResolveFunc) :=
  guestEnvModuleImports ++ guestWasiModuleImports

-- An entry's callback takes the arguments and sets the results which the entry's type declares.
def ImportResolveFunc.Agrees (e : ImportResolveFunc) : Prop :=
  ∀ (w : World) (args : List WasmVal), args.map WasmVal.kind = e.funcType.params →
    w.results = .replicate e.funcType.results.length none →
    match e.funcCallback args w with
    | .ok none w'   => w'.results.map (·.map WasmVal.kind) = e.funcType.results.map some
    | .ok (some _) _ => True
    | .error f _    => ¬f.IsBadAccess

-- The bindings which hand out a handle.
def DerivesHandle (name : String) : Prop :=
  name = "ecsact_system_execution_context_parent" ∨
    name = "ecsact_system_execution_context_other"

instance : DecidablePred DerivesHandle :=
  fun name => inferInstanceAs <| Decidable (name = _ ∨ name = _)

end Ecsact
