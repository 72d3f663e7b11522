import EcsactSiWasmer.Execution.Guest

namespace Ecsact

theorem lookup_importTables {e : String × ImportResolveFunc} (he : e ∈ importTables) :
    importTables.lookup e.1 = some e.2 := by
  revert e
  simp only [importTables, guestEnvModuleImports, guestWasiModuleImports, List.cons_append,
    List.nil_append, List.forall_mem_cons]
  exact ⟨rfl, rfl, rfl, rfl, rfl, rfl, rfl, rfl, rfl, rfl, rfl, rfl, rfl, rfl, rfl, rfl, rfl, rfl,
    rfl, rfl, List.forall_mem_nil _⟩

theorem exists_vals {args : List WasmVal} {k : Nat}
    (h : args.map WasmVal.kind = .replicate k .i32) :
    ∃ vs : List (BitVec 32), vs.length = k ∧ args = vs.map .i32 := by
  induction k generalizing args
  case zero => exact ⟨[], rfl, by simpa using h⟩
  case succ k hi =>
    cases args
    case nil => cases h
    case cons val args =>
      have ⟨hv, ha⟩ := List.cons.inj h
      have ⟨vs, hl, ha⟩ := hi ha
      cases val
      case i32 v => exact ⟨v :: vs, by simp [hl], by simp [ha]⟩
      case i64   => cases hv

-- A call by its callback, the guest's values and the number of its results.
structure Runs (call : ImportCall) (callback : Callback) (vs : List (BitVec 32)) (k : Nat) :
    Prop where
  callback : call.func.funcCallback = callback
  args     : call.args = vs.map .i32
  results  : call.func.funcType.results.length = k

namespace Runs

variable {call : ImportCall} {callback : Callback} {vs : List (BitVec 32)} {k : Nat} {w : World}

theorem run (h : Runs call callback vs k) : call.run w = callback (vs.map .i32) (call.enter w) := by
  rw [ImportCall.run, h.callback, h.args]

theorem vals (h : Runs call callback vs k) : call.vals = vs := by
  rw [ImportCall.vals, h.args, List.filterMap_map]
  exact List.filterMap_some

theorem enter_results (h : Runs call callback vs k) :
    (call.enter w).results = .replicate k none := by
  rw [ImportCall.enter, h.results]

end Runs

theorem exists_runs {call : ImportCall} {name : String} {func : ImportResolveFunc} {k : Nat}
    (hn : call.name = name) (hf : importTables.lookup name = some func)
    (hk : func.funcType.params = .replicate k .i32) :
    ∃ vs, vs.length = k ∧ Runs call func.funcCallback vs func.funcType.results.length := by
  have hl := lookup_importTables call.mem
  cases hf.symm.trans (hn ▸ hl)
  have ⟨vs, hv, ha⟩ := exists_vals (call.typed.trans hk)
  exact ⟨vs, hv, rfl, ha, rfl⟩

-- A call of an import by the guest's values.
theorem ImportCall.run_eq {call : ImportCall} {name : String} {func : ImportResolveFunc} {k : Nat}
    (hn : call.name = name) (hf : importTables.lookup name = some func)
    (hk : func.funcType.params = .replicate k .i32) (w : World) : call.run w =
      func.funcCallback ((List.range k).map fun i : Nat => .i32 (call.val i)) (call.enter w) := by
  have ⟨vs, hv, hr⟩ := exists_runs hn hf hk
  have he : vs = (List.range k).map call.val := by
    refine List.ext_getElem (by simp [hv]) fun i h₁ _ => ?_
    simp [val, hr.vals, List.getD_eq_getElem?_getD, h₁]
  rw [hr.run]
  conv_lhs => rw [he, List.map_map]
  rfl

theorem ImportCall.callback_eq {call : ImportCall} {name : String} {func : ImportResolveFunc}
    (hn : call.name = name) (hf : importTables.lookup name = some func) :
    call.func.funcCallback = func.funcCallback := by
  cases hf.symm.trans (hn ▸ lookup_importTables call.mem)
  rfl

theorem ImportCall.enter_length {call : ImportCall} {name : String} {func : ImportResolveFunc}
    (hn : call.name = name) (hf : importTables.lookup name = some func) (w : World) :
    (call.enter w).results.length = func.funcType.results.length := by
  cases hf.symm.trans (hn ▸ lookup_importTables call.mem)
  simp [enter]

-- The only result of a call, once it is set.
theorem ImportCall.enter_set {call : ImportCall} {name : String} {func : ImportResolveFunc}
    (hn : call.name = name) (hf : importTables.lookup name = some func)
    (hr : func.funcType.results.length = 1) (w : World) (v : WasmVal) :
    (call.enter w).results.set 0 (some v) = [some v] := by
  have ⟨r, he⟩ := List.length_eq_one_iff.mp <| (enter_length hn hf w).trans hr
  rw [he, List.set_cons_zero]

-- The kinds of the values of a call.

theorem typed_single (v : BitVec 32) : [WasmVal.i32 v].map WasmVal.kind = [.i32] :=
  rfl

theorem typed_quad (v₀ v₁ v₂ v₃ : BitVec 32) :
    [WasmVal.i32 v₀, .i32 v₁, .i32 v₂, .i32 v₃].map WasmVal.kind = [.i32, .i32, .i32, .i32] :=
  rfl

end Ecsact
