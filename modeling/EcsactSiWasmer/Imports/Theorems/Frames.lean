import EcsactSiWasmer.Imports.Tables
import EcsactSiWasmer.Objects.Theorems.CallMem

open EStateM Ecsact.World

namespace Ecsact

-- The faults of a kind are none of those which the C++ library ends in.
structure Fault.Foreign (P : Fault → Prop) : Prop where
  undefined : ∀ what, ¬P (.undefined what)
  exception : ∀ what, ¬P (.exception what)

theorem Fault.foreign_isBadAccess : Foreign IsBadAccess where
  undefined _ := id
  exception _ := id

namespace Files

variable {file : FilePtr} {path mode : String} {fd : BitVec 32} {P : Fault → Prop}
  (hP : Fault.Foreign P)

theorem avoids_fopen : Avoids P (fopen path mode) := by
  refine .bind .get fun files => ?_
  cases files.disk path
  case none => exact .pure
  case some => exact .bind .modify fun _ => .pure

include hP

theorem avoids_stream : Avoids P (stream file) := by
  cases file
  case none   => exact .throw (hP.undefined _)
  case some k =>
    refine .bind .get fun files => ?_
    cases files.streams[k]?
    case none => exact .throw (hP.undefined _)
    case some => exact .ite (.bind (.throw (hP.undefined _)) fun _ => .pure) .pure

theorem avoids_fread {n : Nat} : Avoids P (fread n file) :=
  .bind (avoids_stream hP) fun _ => .bind .modify fun _ => .pure

theorem avoids_virtualFilesAt : Avoids P (virtualFilesAt fd) := by
  refine .bind .get fun files => ?_
  cases files.virtualFiles fd
  case none => exact .throw (hP.exception _)
  case some => exact .pure

theorem avoids_ensureOpen : Avoids P (ensureOpen fd) := by
  refine .bind (avoids_virtualFilesAt hP) fun info => ?_
  cases info.openedFile
  case none => exact .bind avoids_fopen fun _ => .bind .modify fun _ => .pure
  case some => exact .pure

theorem avoids_close : Avoids P (close fd) := by
  refine .bind (avoids_virtualFilesAt hP) fun info => ?_
  cases info.openedFile
  case none => exact .pure
  case some => exact .bind (.bind (avoids_stream hP) fun _ => .modify) fun _ => .modify

end Files

-- A part of a callback which makes no bad access to its vectors, sets no result, and keeps what a
-- projection shows of call memory.
structure Quiet {α γ : Type} (p : CallMem → γ) (x : CallbackM α) : Prop where
  results : Within (Keeps World.results) x
  callMem : Within (Keeps (p ∘ World.callMem)) x
  sound   : Avoids Fault.IsBadAccess x

namespace Quiet

variable {α β γ : Type} {p : CallMem → γ} {x y : CallbackM α} {f : α → CallbackM β}

theorem pure {a : α} : Quiet p (pure a) :=
  ⟨.pure, .pure, .pure⟩

theorem throw {e : Fault} (h : ¬e.IsBadAccess) : Quiet p (throw e : CallbackM α) :=
  ⟨.throw, .throw, .throw h⟩

theorem get : Quiet p get :=
  ⟨.get, .get, .get⟩

theorem bind (hx : Quiet p x) (hf : ∀ a, Quiet p (f a)) : Quiet p (x >>= f) where
  results := hx.results.bind fun a => (hf a).results
  callMem := hx.callMem.bind fun a => (hf a).callMem
  sound   := hx.sound.bind fun a => (hf a).sound

theorem ite {c : Prop} [Decidable c] (hx : Quiet p x) (hy : Quiet p y) :
    Quiet p (if c then x else y) := by
  split <;> assumption

theorem weaken (h : Quiet p x) : Quiet (fun _ => ()) x where
  results := h.results
  callMem := fun _ => rfl
  sound   := h.sound

theorem modify {g : World → World} (hr : ∀ w, (g w).results = w.results)
    (hc : ∀ w, (g w).callMem = w.callMem) : Quiet p (modify g) where
  results := .modify hr
  callMem := .modify fun w => congrArg p <| hc w
  sound   := .modify

theorem onCallMem {x : CallMemM α} (h : Within (Keeps p) x) (hs : Avoids Fault.IsBadAccess x) :
    Quiet p (onCallMem x) where
  results := Within.zoom (S := Keeps World.results) h fun _ _ _ => rfl
  callMem := h.zoom fun _ _ => id
  sound   := hs.zoom

theorem callMemRead {offset : BitVec 32} {type : SlotType} :
    Quiet p (World.onCallMem (CallMem.callMemRead offset type)) :=
  onCallMem CallMem.within_callMemRead CallMem.avoids_callMemRead

theorem debugTraceMethod {name : String} :
    Quiet CallMem.untraced (World.onCallMem (CallMem.debugTraceMethod name)) :=
  onCallMem CallMem.within_debugTraceMethod CallMem.avoids_debugTraceMethod

theorem callMemAlloc {v : BitVec 64} {type : SlotType} :
    Quiet (fun _ => ()) (World.onCallMem (CallMem.callMemAlloc v type)) :=
  onCallMem (fun _ => rfl) CallMem.avoids_callMemAlloc

theorem onFiles {x : FilesM α} (hs : Avoids Fault.IsBadAccess x) : Quiet p (onFiles x) where
  results t := by simp only [World.onFiles, EStateM.zoom]; split <;> rfl
  callMem t := by simp only [World.onFiles, EStateM.zoom]; split <;> rfl
  sound     := hs.zoom

theorem loadBytes {ptr : HostPtr} {n : Nat} : Quiet p (loadBytes ptr n) := by
  cases ptr
  case null => exact throw id
  case data => exact ⟨fun _ => rfl, fun _ => rfl, .bind .get fun _ => .bind .modify fun _ => .pure⟩

theorem storeBytes {ptr : HostPtr} {bytes : List Byte} : Quiet p (storeBytes ptr bytes) := by
  cases ptr
  case null => exact throw id
  case data => exact ⟨fun _ => rfl, fun _ => rfl, .bind .get fun _ => .modify⟩

theorem loadWord {n : Nat} {ptr : HostPtr} : Quiet p (loadWord n ptr) :=
  loadBytes.bind fun _ => pure

theorem storeWord {n : Nat} {ptr : HostPtr} {v : BitVec n} : Quiet p (storeWord ptr v) :=
  storeBytes

theorem pushStdioStr {level : LogLevel} {str : List Byte} : Quiet p (pushStdioStr level str) :=
  modify (fun _ => rfl) fun _ => rfl

theorem hostCall {fn : EcsactFn} {args : List HostArg} {answer : Runtime → HostView → α} :
    Quiet p (hostCall fn args answer) :=
  ⟨fun _ => rfl, fun _ => rfl, .bind .get fun _ => .bind .modify fun _ => .pure⟩

theorem getVoidPtr {v : BitVec 32} {mem : MemPtr} : Quiet p (getVoidPtr (.i32 v) mem) :=
  .bind pure fun _ => ite (pure.bind fun _ => pure) pure

theorem getExecutionContext {v : BitVec 32} : Quiet p (getExecutionContext (.i32 v)) :=
  .bind pure fun _ => callMemRead

theorem getExecutionContextMemory {v : BitVec 32} : Quiet p (getExecutionContextMemory (.i32 v)) :=
  .bind pure fun _ => callMemRead

end Quiet

section

variable {args : List WasmVal} {params : List ValKind} {i : Nat}

theorem argData_eq {val : WasmVal} (h : args[i]? = some val) : argData args i = pure val := by
  simp only [argData, h]

-- An argument of a declared parameter is there and has its kind.
theorem exists_argData_eq (ha : args.map WasmVal.kind = params) (hi : params[i]? = some .i32) :
    ∃ v, argData args i = pure (.i32 v) := by
  subst ha
  simp only [List.getElem?_map, Option.map_eq_some_iff] at hi
  have ⟨val, hv, hk⟩ := hi
  cases val
  case i32 v => exact ⟨v, argData_eq hv⟩
  case i64 v => cases hk

end

namespace Quiet

variable {α β γ : Type} {p : CallMem → γ} {args : List WasmVal} {params : List ValKind} {i : Nat}

theorem argData_bind {f : WasmVal → CallbackM α} (ha : args.map WasmVal.kind = params)
    (hi : params[i]? = some .i32) (hf : ∀ v, Quiet p (f (.i32 v))) :
    Quiet p (argData args i >>= f) := by
  have ⟨v, hv⟩ := exists_argData_eq ha hi
  rw [hv, pure_bind]
  exact hf v

theorem argI32 (ha : args.map WasmVal.kind = params) (hi : params[i]? = some .i32) :
    Quiet p (argI32 args i) :=
  argData_bind ha hi fun _ => pure

theorem passArg {pass : Pass} {v : BitVec 32} {mem : MemPtr} :
    Quiet p (pass.arg (.i32 v) mem) := by
  cases pass
  case id | bool      => exact .bind pure fun _ => pure
  case ptr | constPtr => exact .bind getVoidPtr fun _ => pure

theorem passArgs {mem : MemPtr} {passed : List (Nat × Pass)}
    (ha : args.map WasmVal.kind = params) (hp : ∀ e ∈ passed, params[e.1]? = some .i32) :
    Quiet p (passArgs args mem passed) := by
  induction passed
  case nil => exact pure
  case cons e passed hi =>
    have ⟨he, hp⟩ := List.forall_mem_cons.mp hp
    refine argData_bind ha he fun _ => ?_
    exact passArg.bind fun _ => (hi hp).bind fun _ => pure

theorem forward {name : String} {fn : EcsactFn} {passed : List (Nat × Pass)}
    {answer : Runtime → HostView → α} (ha : args.map WasmVal.kind = params)
    (h₀ : params[0]? = some .i32) (hp : ∀ e ∈ passed, params[e.1]? = some .i32) :
    Quiet CallMem.untraced (forward name fn passed answer args) :=
  debugTraceMethod.bind fun _ =>
    argData_bind ha h₀ fun _ => getExecutionContext.bind fun _ =>
    argData_bind ha h₀ fun _ => getExecutionContextMemory.bind fun _ =>
    (passArgs ha hp).bind fun _ => hostCall

theorem componentDataList {mem : MemPtr} {list : HostPtr} {n : Nat} :
    Quiet p (componentDataList mem list n i) := by
  induction n generalizing i
  case zero      => exact pure
  case succ _ hi => exact loadWord.bind fun _ => getVoidPtr.bind fun _ => hi.bind fun _ => pure

theorem callMemory : Quiet p callMemory :=
  callMemRead

theorem loadCiovec {iovec : HostPtr} : Quiet p (loadCiovec iovec i) :=
  loadBytes.bind fun _ => pure

variable {mem : MemPtr} {iovec : HostPtr} {n : Nat} {amount : BitVec 64}

theorem writeLoop {level : LogLevel} : Quiet p (writeLoop mem iovec level n i amount) := by
  induction n generalizing i amount
  case zero      => exact pure
  case succ _ hi =>
    exact loadCiovec.bind fun _ => ite (loadBytes.bind fun _ => pushStdioStr.bind fun _ => hi) hi

theorem readLoop {f : FilePtr} : Quiet p (readLoop mem iovec f n i amount) := by
  induction n generalizing i amount
  case zero      => exact pure
  case succ _ hi =>
    exact loadCiovec.bind fun _ =>
      ite ((onFiles (Files.avoids_fread Fault.foreign_isBadAccess)).bind fun _ =>
        storeBytes.bind fun _ => hi) hi

end Quiet

section

variable {val : WasmVal} {w : World} {j : Nat}

theorem setResult_ok (h : j < w.results.length) :
    setResult j val w = .ok () { w with results := w.results.set j (some val) } := by
  simp only [setResult]
  rw [bind_ok (get_apply w), if_pos h]
  rfl

theorem setResult_error (h : ¬j < w.results.length) :
    setResult j val w = .error (.badResult j) w := by
  simp only [setResult]
  rw [bind_ok (get_apply w), if_neg h]
  rfl

theorem within_setResult {γ : Type} {p : CallMem → γ} :
    Within (Keeps (p ∘ World.callMem)) (setResult j val) := by
  intro w
  by_cases h : j < w.results.length
  case pos => rw [setResult_ok h]; rfl
  case neg => rw [setResult_error h]; rfl

end

-- A callback which also sets results of the declared kinds when it finds as many unset ones.
structure Settles {γ : Type} (p : CallMem → γ) (kinds : List ValKind)
    (x : CallbackM (Option Trap)) : Prop where
  callMem : Within (Keeps (p ∘ World.callMem)) x
  trap    : ∀ w trap w', x w = .ok trap w' → trap = none
  ok      : ∀ w w', w.results = .replicate kinds.length none → x w = .ok none w' →
    w'.results.map (·.map WasmVal.kind) = kinds.map some
  sound   : ∀ w w' e, w.results = .replicate kinds.length none → x w = .error e w' →
    ¬e.IsBadAccess

namespace Settles

variable {α γ : Type} {p : CallMem → γ} {kinds : List ValKind} {x y : CallbackM (Option Trap)}

theorem bind {x : CallbackM α} {f : α → CallbackM (Option Trap)} (hx : Quiet p x)
    (hf : ∀ a, Settles p kinds (f a)) : Settles p kinds (x >>= f) where
  callMem := hx.callMem.bind fun a => (hf a).callMem
  trap _ trap w' h := by
    have ⟨a, w₁, _, h⟩ := bind_eq_ok.mp h
    exact (hf a).trap w₁ trap w' h
  ok w w' hr h := by
    have ⟨a, w₁, h₁, h₂⟩ := bind_eq_ok.mp h
    exact (hf a).ok w₁ w' ((hx.results.of_ok h₁).trans hr) h₂
  sound w w' e hr h := by
    cases bind_eq_error.mp h
    case inl h => exact hx.sound w e w' h
    case inr h =>
      have ⟨a, w₁, h₁, h₂⟩ := h
      exact (hf a).sound w₁ w' e ((hx.results.of_ok h₁).trans hr) h₂

theorem void : Settles p [] (pure none) where
  callMem := .pure
  trap _ _ _ h := by
    cases h
    rfl
  ok w w' hr h := by
    cases h
    simp [hr]
  sound _ _ _ _ h := by cases h

-- Nothing that follows an exception is run.
theorem exception {what : String} {f : α → CallbackM (Option Trap)} :
    Settles p kinds (throw (.exception what) >>= f) where
  callMem _       := rfl
  trap _ _ _ h    := by cases h
  ok _ _ _ h      := by cases h
  sound _ _ _ _ h := by cases h; exact id

theorem result {val : WasmVal} :
    Settles p [val.kind] (setResult 0 val >>= fun _ => pure none) where
  callMem := .bind within_setResult fun _ => .pure
  trap _ _ _ h := by
    have ⟨_, _, _, h⟩ := bind_eq_ok.mp h
    cases h
    rfl
  ok w w' hr h := by
    have hl : 0 < w.results.length := by simp [hr]
    rw [bind_ok (setResult_ok hl)] at h
    cases h
    simp [hr]
  sound w w' e hr h := by
    have hl : 0 < w.results.length := by simp [hr]
    rw [bind_ok (setResult_ok hl)] at h
    cases h

theorem i32 {v : BitVec 32} :
    Settles p [.i32] (setResult 0 (.i32 v) >>= fun _ => pure none) :=
  @result _ _ (.i32 v)

theorem weaken (h : Settles p kinds x) : Settles (fun _ => ()) kinds x where
  callMem _ := rfl
  trap      := h.trap
  ok        := h.ok
  sound     := h.sound

theorem ite {c : Prop} [Decidable c] (hx : Settles p kinds x) (hy : Settles p kinds y) :
    Settles p kinds (if c then x else y) := by
  split <;> assumption

end Settles
end Ecsact
