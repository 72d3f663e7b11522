import EcsactSiWasmer.Execution.Guest

namespace Ecsact

-- What a parameter of a binding is in the native API.
inductive Role
  | context
  | id
  | count
  | flag
  | ptr
  | ptrs
  deriving DecidableEq

-- The role of the parameter which an argument is passed on for.
def Pass.role : Pass → Role
  | id             => .id
  | bool           => .flag
  | ptr | constPtr => .ptr

-- A function of the native API by the parameters that the import table declares for its binding.
-- Two of the bindings ask for the system's id before they call the function.
structure Native where
  fn     : EcsactFn
  roles  : List Role
  asksId : Bool := false

def nativeApi : List (String × Native) := [
  ("ecsact_system_execution_context_action", { fn := .action, roles := [.context, .ptr] }),
  ("ecsact_system_execution_context_parent", { fn := .parent, roles := [.context], asksId := true }),
  ("ecsact_system_execution_context_same", { fn := .same, roles := [.context, .context] }),
  ("ecsact_system_execution_context_get", { fn := .get, roles := [.context, .id, .ptr, .ptr] }),
  ("ecsact_system_execution_context_update",
    { fn := .update, roles := [.context, .id, .ptr, .ptr] }),
  ("ecsact_system_execution_context_has", { fn := .has, roles := [.context, .id, .ptr] }),
  ("ecsact_system_execution_context_generate",
    { fn := .generate, roles := [.context, .count, .ptr, .ptrs] }),
  ("ecsact_system_execution_context_add", { fn := .add, roles := [.context, .id, .ptr] }),
  ("ecsact_system_execution_context_remove", { fn := .remove, roles := [.context, .id, .ptr] }),
  ("ecsact_system_execution_context_other",
    { fn := .other, roles := [.context, .id], asksId := true }),
  ("ecsact_system_execution_context_entity", { fn := .entity, roles := [.context] }),
  ("ecsact_system_execution_context_stream_toggle",
    { fn := .streamToggle, roles := [.context, .id, .flag, .ptr] })
]

-- One case for each binding.
theorem nativeApi_cases {name : String} {n : Native} {motive : Prop} (h : (name, n) ∈ nativeApi)
    (action : name = "ecsact_system_execution_context_action" →
      n = { fn := .action, roles := [.context, .ptr] } → motive)
    (parent : name = "ecsact_system_execution_context_parent" →
      n = { fn := .parent, roles := [.context], asksId := true } → motive)
    (same : name = "ecsact_system_execution_context_same" →
      n = { fn := .same, roles := [.context, .context] } → motive)
    (get : name = "ecsact_system_execution_context_get" →
      n = { fn := .get, roles := [.context, .id, .ptr, .ptr] } → motive)
    (update : name = "ecsact_system_execution_context_update" →
      n = { fn := .update, roles := [.context, .id, .ptr, .ptr] } → motive)
    (has : name = "ecsact_system_execution_context_has" →
      n = { fn := .has, roles := [.context, .id, .ptr] } → motive)
    (generate : name = "ecsact_system_execution_context_generate" →
      n = { fn := .generate, roles := [.context, .count, .ptr, .ptrs] } → motive)
    (add : name = "ecsact_system_execution_context_add" →
      n = { fn := .add, roles := [.context, .id, .ptr] } → motive)
    (remove : name = "ecsact_system_execution_context_remove" →
      n = { fn := .remove, roles := [.context, .id, .ptr] } → motive)
    (other : name = "ecsact_system_execution_context_other" →
      n = { fn := .other, roles := [.context, .id], asksId := true } → motive)
    (entity : name = "ecsact_system_execution_context_entity" →
      n = { fn := .entity, roles := [.context] } → motive)
    (streamToggle : name = "ecsact_system_execution_context_stream_toggle" →
      n = { fn := .streamToggle, roles := [.context, .id, .flag, .ptr] } → motive) : motive := by
  simp only [nativeApi, List.mem_cons, Prod.mk.injEq, List.not_mem_nil, or_false] at h
  rcases h with ⟨hn, h⟩ | ⟨hn, h⟩ | ⟨hn, h⟩ | ⟨hn, h⟩ | ⟨hn, h⟩ | ⟨hn, h⟩ | ⟨hn, h⟩ | ⟨hn, h⟩ |
    ⟨hn, h⟩ | ⟨hn, h⟩ | ⟨hn, h⟩ | ⟨hn, h⟩
  all_goals first
    | exact action hn h
    | exact parent hn h
    | exact same hn h
    | exact get hn h
    | exact update hn h
    | exact has hn h
    | exact generate hn h
    | exact add hn h
    | exact remove hn h
    | exact other hn h
    | exact entity hn h
    | exact streamToggle hn h

theorem fst_mem_nativeApi {entry : String × ImportResolveFunc} (h : entry ∈ guestEnvModuleImports) :
    ∃ n, (entry.1, n) ∈ nativeApi := by
  have hm : ∀ name ∈ guestEnvModuleImports.map Prod.fst, ∃ n, (name, n) ∈ nativeApi := by
    simp [guestEnvModuleImports, nativeApi]
  exact hm _ <| List.mem_map_of_mem h

-- The contexts which the handles that a guest has been given stand for.
abbrev Handles := BitVec 32 → Option CtxPtr

-- What the guest gets back.
inductive Answer
  | nothing
  | bool (b : Bool)
  | entity (e : BitVec 32)
  | context (ctx : CtxPtr)

namespace Answer

def of (runtime : Runtime) (view : HostView) : EcsactFn → Answer
  | .has    => bool (runtime.has view)
  | .same   => bool (runtime.same view)
  | .entity => entity (runtime.entity view)
  | .parent => context (runtime.parent view)
  | .other  => context (runtime.other view)
  | _       => nothing

-- The answer is what the callback's results say, and a context gets a handle of its own.
def Reaches (results : List (Option WasmVal)) (issued : Handles) : Answer → Prop
  | nothing     => True
  | bool b      => results = [some (boolVal b)]
  | entity e    => results = [some (.i32 e)]
  | context ctx => ∃ handle, results = [some (.i32 handle)] ∧ (handle = 0 ↔ ctx = 0) ∧
      issued handle = none

-- The handles after an answer.
def issue (results : List (Option WasmVal)) (issued : Handles) : Answer → Handles
  | context ctx =>
    match results with
    | [some (.i32 handle)] => Function.update issued handle (some ctx)
    | _                    => issued
  | _           => issued

end Answer

def guestPtr (mem : MemPtr) (v : BitVec 32) : HostPtr :=
  if v = 0 then .null else .data mem v.toNat

-- The `i`-th of the guest's words at an address.
def guestWord (bytes : ByteStore) (v : BitVec 32) (i : Nat) : BitVec 32 :=
  bytes.readWord 32 (v.toNat + 4 * i)

namespace Native

variable (n : Native) (mem : MemPtr) (issued : Handles) (call : ImportCall) (w : World)

def bytes : ByteStore :=
  ((call.enter w).memories mem).bytes

-- What the native function is to get for one of the guest's arguments. An array's length is the
-- guest's second argument.
def hostArg (v : BitVec 32) : Role → HostArg
  | .context     => .ctx ((issued v).getD 0)
  | .id | .count => .i32 v
  | .flag        => .bool (v ≠ 0)
  | .ptr         => .ptr (guestPtr mem v)
  | .ptrs        => .ptrs <| (List.range (call.val 1).toNat).map fun i =>
      guestPtr mem (guestWord (bytes mem call w) v i)

def hostArgs : List HostArg :=
  List.zipWith (hostArg mem issued call w) call.vals n.roles

-- The world in which the function is called.
def before : World :=
  if n.asksId then (call.enter w).called .id [.ctx ((issued (call.val 0)).getD 0)] else call.enter w

def answer : Answer :=
  .of w.runtime ((n.before issued call w).hostView n.fn (n.hostArgs mem issued call w)) n.fn

-- What the guest has to see to for its call: handles that it was given, and addresses of its own.
def Admits : BitVec 32 → Role → Prop
  | v, .context             => (issued v).isSome
  | _, .id | _, .count | _, .flag => True
  | v, .ptr                 => v.toNat < 2 ^ 31
  | v, .ptrs                => v.toNat < 2 ^ 31 ∧
      v.toNat + 4 * (call.val 1).toNat ≤ ((call.enter w).memories mem).size ∧
      ∀ i < (call.val 1).toNat, (guestWord (bytes mem call w) v i).toNat < 2 ^ 31

def Admissible : Prop :=
  ∀ e ∈ call.vals.zip n.roles, Admits mem issued call w e.1 e.2

-- The call returns, having called the function once and as the guest has it.
def Simulates : Prop :=
  ∃ w', call.run w = .ok none w' ∧
    w'.hostCalls = (n.before issued call w).hostCalls ++ [⟨n.fn, n.hostArgs mem issued call w⟩] ∧
    w'.memories = ((n.before issued call w).called n.fn (n.hostArgs mem issued call w)).memories ∧
    (n.answer mem issued call w).Reaches w'.results issued

-- The calls which do not meet one of the slips of the bindings: the result that the table does not
-- declare, the pointer that is taken from the flag, the array at the guest's address 0, the null
-- context with a handle, and the slots past the end of call memory.
structure Regular : Prop where
  has          : n.fn ≠ .has
  streamToggle : n.fn = .streamToggle → call.val 2 = call.val 3
  generate     : n.fn = .generate → call.val 3 ≠ 0 ∨ call.val 1 = 0
  nonNull      : ∀ ctx, n.answer mem issued call w = .context ctx → ctx ≠ 0
  fits         : n.asksId → ∀ info, w.callMem.info = some info → info.dataOffset + 16 ≤ info.maxSize

end Native

-- The states of a system's execution between the guest's calls, with the handles it was given.
inductive Session (mem : MemPtr) : World → Handles → Prop
  | enter {w : World} {ctx : CtxPtr} {handle : BitVec 32} {c : CallMem} :
      CallMem.enterSystem mem ctx w.callMem = .ok handle c →
      Session mem { w with callMem := c } (Function.update (fun _ => none) handle (some ctx))
  | binding {w w' : World} {issued : Handles} {call : ImportCall} {n : Native} :
      Session mem w issued → (call.name, n) ∈ nativeApi → n.Admissible mem issued call w →
      n.Regular mem issued call w → call.run w = .ok none w' →
      Session mem w' ((n.answer mem issued call w).issue w'.results issued)
  | wasi {w w' : World} {issued : Handles} {call : ImportCall} :
      Session mem w issued → (∀ e ∈ nativeApi, e.1 ≠ call.name) → call.run w = .ok none w' →
      Session mem w' issued

end Ecsact
