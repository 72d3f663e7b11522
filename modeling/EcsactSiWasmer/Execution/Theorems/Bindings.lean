import EcsactSiWasmer.Execution.Bindings
import EcsactSiWasmer.Execution.Theorems.Calls
import EcsactSiWasmer.Execution.Theorems.Capacity

open EStateM Ecsact.World Ecsact.CallMem

namespace Ecsact

-- The two slots of a handle.
structure CallMemInfo.Issued (info : CallMemInfo) (ndebug : Bool) (handle : BitVec 32)
    (ctx : CtxPtr) (mem : MemPtr) : Prop where
  ge      : 8 ≤ handle.toNat
  le      : handle.toNat + 8 ≤ info.dataOffset
  context : info.data.readWord 64 handle.toNat = ctx
  memory  : info.data.readWord 64 (handle.toNat - 8 : Int) = mem
  types   : ndebug = false → info.dataOffsetTypes handle.toNat = some .context ∧
    info.dataOffsetTypes (handle.toNat - 8) = some .memory

namespace CallMemInfo

variable {info : CallMemInfo} {ndebug : Bool} {handle : BitVec 32} {ctx : CtxPtr} {mem : MemPtr}
  {v : BitVec 64} {type : SlotType}

theorem toInt_ofNat {n : Nat} (h : n < 2 ^ 31) : (BitVec.ofNat 32 n).toInt = n := by
  rw [toInt_eq_toNat] <;> simp <;> omega

theorem offsetKey_eq (h : handle.toNat < 2 ^ 31) : offsetKey handle = handle.toNat := by
  have hk := @offsetKey_ofNat handle.toNat h
  rwa [BitVec.ofNat_toNat, BitVec.setWidth_eq] at hk

theorem Issued.denotes {c : CallMem} (h : info.Issued c.ndebug handle ctx mem)
    (hi : c.info = some info) (hl : info.dataOffset < 2 ^ 31) : c.Denotes handle ctx mem := by
  have hg := h.ge
  have hu := h.le
  have hs : (handle - 8).toNat = handle.toNat - 8 :=
    BitVec.toNat_sub_of_le <| by simpa [BitVec.le_def] using h.ge
  constructor
  case context =>
    refine callMemRead_eq_ok.mpr ⟨info, hi, fun hn => ?_, ?_, rfl⟩
    · rw [offsetKey_eq (by omega)]
      exact ⟨by omega, (h.types hn).1⟩
    · rw [toInt_eq_toNat (by omega), h.context]
  case memory =>
    refine callMemRead_eq_ok.mpr ⟨info, hi, fun hn => ?_, ?_, rfl⟩
    · rw [offsetKey_eq (by omega), hs]
      exact ⟨by omega, (h.types hn).2⟩
    · rw [toInt_eq_toNat (by omega), hs, Nat.cast_sub hg]
      exact h.memory.symm

-- A later slot does not overlap those of a handle.
theorem Issued.alloc (h : info.Issued ndebug handle ctx mem) (hl : info.dataOffset < 2 ^ 31) :
    (info.alloc ndebug v type).Issued ndebug handle ctx mem := by
  have hg := h.ge
  have hu := h.le
  have ho := toInt_ofNat hl
  constructor
  case ge => exact hg
  case le => exact hu.trans <| Nat.le_add_right ..
  case context =>
    refine Eq.trans (ByteStore.readWord_writeWord_disjoint ?_) h.context
    rw [ho]
    omega
  case memory =>
    refine Eq.trans (ByteStore.readWord_writeWord_disjoint ?_) h.memory
    rw [ho]
    omega
  case types =>
    intro hn
    have ht := h.types hn
    simp only [CallMemInfo.alloc, assignOffsetType, hn, Bool.false_eq_true, if_false]
    rw [Function.update_of_ne (by omega), Function.update_of_ne (by omega)]
    exact ht

theorem issued_derive (hl : info.dataOffset + 8 < 2 ^ 31) : (info.derive ndebug mem ctx).Issued ndebug
    (BitVec.ofNat 32 (info.dataOffset + 8)) ctx mem := by
  have hn : (BitVec.ofNat 32 (info.dataOffset + 8)).toNat = info.dataOffset + 8 := by
    simp
    omega
  have h₁ := @toInt_ofNat info.dataOffset (by omega)
  have h₂ := toInt_ofNat hl
  constructor
  case ge => omega
  case le => simp [hn, derive, alloc]
  case context =>
    rw [hn]
    simp only [derive, alloc, h₁, h₂]
    exact ByteStore.readWord_writeWord (by decide) _
  case memory =>
    rw [hn]
    simp only [derive, alloc, h₁, h₂]
    have he : ((info.dataOffset + 8 : Nat) : Int) - 8 = info.dataOffset := by omega
    rw [he, ByteStore.readWord_writeWord_disjoint (by omega)]
    exact ByteStore.readWord_writeWord (by decide) _
  case types =>
    intro hd
    rw [hn]
    simp [derive, alloc, assignOffsetType, hd]

theorem Issued.derive (h : info.Issued ndebug handle ctx mem) {ctx' : CtxPtr}
    (hl : info.dataOffset + 8 < 2 ^ 31) : (info.derive ndebug mem ctx').Issued ndebug handle ctx mem :=
  (h.alloc (by omega)).alloc hl

end CallMemInfo

-- The call memory in a session: each handle which was issued has its slots.
structure Holding (mem : MemPtr) (issued : Handles) (c : CallMem) (info : CallMemInfo) : Prop where
  eq      : c.info = some info
  fresh   : info.Fresh
  maxSize : info.maxSize = 4096
  le      : info.dataOffset ≤ 4096
  holds   : ∀ handle ctx, issued handle = some ctx → info.Issued c.ndebug handle ctx mem

namespace Holding

variable {mem : MemPtr} {issued : Handles} {c c' : CallMem} {info : CallMemInfo}
  {handle : BitVec 32} {ctx : CtxPtr}

theorem denotes (h : Holding mem issued c info) (hi : issued handle = some ctx) :
    c.Denotes handle ctx mem :=
  (h.holds handle ctx hi).denotes h.eq <| h.le.trans_lt <| by decide

theorem of_untraced (h : Holding mem issued c info) (hu : c'.untraced = c.untraced) :
    ∃ trace, Holding mem issued c' { info with methodTrace := trace } := by
  have hn : c'.untraced.ndebug = c.untraced.ndebug := congrArg CallMem.ndebug hu
  replace hn : c'.ndebug = c.ndebug := hn
  have ⟨trace, hi⟩ := info_of_untraced h.eq hu
  refine ⟨trace, hi, h.fresh, h.maxSize, h.le, fun handle ctx hc => ?_⟩
  have ⟨hg, hl, hx, hm, ht⟩ := h.holds handle ctx hc
  exact ⟨hg, hl, hx, hm, hn ▸ ht⟩

-- The handle which comes next is not yet in use.
theorem next_eq_none (h : Holding mem issued c info) :
    issued (BitVec.ofNat 32 (info.dataOffset + 8)) = none := by
  by_contra hc
  have ⟨ctx, hc⟩ := Option.ne_none_iff_exists'.mp hc
  have hl := (h.holds _ _ hc).le
  have hd := h.le
  simp at hl
  omega

theorem derive (h : Holding mem issued c info) (hl : info.dataOffset + 16 ≤ 4096) :
    Holding mem (Function.update issued (BitVec.ofNat 32 (info.dataOffset + 8)) (some ctx))
      { c with info := some (info.derive c.ndebug mem ctx) } (info.derive c.ndebug mem ctx) where
  eq      := rfl
  fresh   := h.fresh.alloc.alloc
  maxSize := h.maxSize
  le      := hl
  holds handle ctx' hc := by
    by_cases he : handle = BitVec.ofNat 32 (info.dataOffset + 8)
    case pos =>
      rw [he, Function.update_self] at hc
      cases hc
      rw [he]
      exact CallMemInfo.issued_derive <| by omega
    case neg =>
      rw [Function.update_of_ne he] at hc
      exact (h.holds handle ctx' hc).derive <| by omega

end Holding

theorem holding_enter {c c' : CallMem} {mem : MemPtr} {ctx : CtxPtr} {handle : BitVec 32}
    (h : enterSystem mem ctx c = .ok handle c') :
    ∃ info, Holding mem (Function.update (fun _ => none) handle (some ctx)) c' info := by
  obtain ⟨_, rfl, rfl⟩ := enterSystem_eq_ok.mp h
  have h₀ : Holding mem (fun _ => none) { c with info := some blank } blank :=
    ⟨rfl, fresh_blank, rfl, by decide, nofun⟩
  exact ⟨_, h₀.derive <| by decide⟩

theorem voidPtr_eq {v : BitVec 32} {mem : MemPtr} (h : v.toNat < 2 ^ 31) :
    voidPtr v mem = guestPtr mem v := by
  rw [voidPtr, guestPtr, toInt_eq_toNat h]

namespace Native.Simulates

variable {n : Native} {mem : MemPtr} {issued : Handles} {call : ImportCall} {w : World}
  {handle : BitVec 32} {ctx : CtxPtr} {info : CallMemInfo}

theorem void {name : String} {passed : List (Nat × Pass)} {vs : List (BitVec 32)}
    {roles : List Role} (hc : Runs call (forwardVoid name n.fn passed) (handle :: vs) 0)
    (hr : n.roles = .context :: roles) (ha : n.asksId = false)
    (hn : ∀ runtime view, Answer.of runtime view n.fn = .nothing)
    (hh : Holding mem issued w.callMem info) (hi : issued handle = some ctx)
    (hl : ∀ e ∈ passed, e.1 < vs.length + 1)
    (hp : (passed.map fun e => e.2.value ((handle :: vs).getD e.1 0) mem) =
      List.zipWith (hostArg mem issued call w) vs roles) : n.Simulates mem issued call w := by
  have hd : (call.enter w).callMem.Denotes handle ctx mem := hh.denotes hi
  have hb : n.before issued call w = call.enter w := by simp [before, ha]
  have hg : n.hostArgs mem issued call w =
      .ctx ctx :: List.zipWith (hostArg mem issued call w) vs roles := by
    simp [hostArgs, hc.vals, hr, hostArg, hi]
  refine ⟨((call.enter w).traced name).called n.fn (n.hostArgs mem issued call w), ?_, ?_, ?_, ?_⟩
  · rw [hc.run, forwardVoid, forward_eq hl, hg, ← hp]
    let f : CtxPtr → MemPtr → CallbackM Unit := fun ctx mem => hostCall n.fn
      (.ctx ctx :: passed.map fun e => e.2.value ((handle :: vs).getD e.1 0) mem) fun _ _ => ()
    have hf := @withContext_ok _ name _ f _ _ _ hd
    rw [bind_ok (hf.trans (hostCall_apply ..))]
    rfl
  · rw [hb]
    rfl
  · rw [hb]
    rfl
  · rw [answer, hn]
    trivial

theorem same {a b : BitVec 32} {ctx₁ ctx₂ : CtxPtr}
    (hc : Runs call wasmEcsactSystemExecutionContextSame [a, b] 1)
    (hn : n = { fn := .same, roles := [.context, .context] })
    (hh : Holding mem issued w.callMem info) (h₁ : issued a = some ctx₁)
    (h₂ : issued b = some ctx₂) : n.Simulates mem issued call w := by
  have hg : n.hostArgs mem issued call w = [.ctx ctx₁, .ctx ctx₂] := by
    simp [hn, hostArgs, hc.vals, hostArg, h₁, h₂]
  have hs := same_ok (w := call.enter w) (hh.denotes h₁) (hh.denotes h₂)
    (by simp [hc.enter_results])
  refine ⟨_, hc.run.trans hs, ?_, ?_, ?_⟩
  · rw [hg, hn]
    rfl
  · rw [hg, hn]
    rfl
  · rw [answer, hg, hn]
    simp [hc.enter_results, Answer.of, Answer.Reaches, before]
    rfl

theorem entity (hc : Runs call wasmEcsactSystemExecutionContextEntity [handle] 1)
    (hn : n = { fn := .entity, roles := [.context] }) (hh : Holding mem issued w.callMem info)
    (hi : issued handle = some ctx) : n.Simulates mem issued call w := by
  have hg : n.hostArgs mem issued call w = [.ctx ctx] := by
    simp [hn, hostArgs, hc.vals, hostArg, hi]
  have he := entity_ok (w := call.enter w) (hh.denotes hi) (by simp [hc.enter_results])
  refine ⟨_, hc.run.trans he, ?_, ?_, ?_⟩
  · rw [hg, hn]
    rfl
  · rw [hg, hn]
    rfl
  · rw [answer, hg, hn]
    simp [hc.enter_results, Answer.of, Answer.Reaches, before]
    rfl

theorem generate {count ids list : BitVec 32}
    (hc : Runs call wasmEcsactSystemExecutionContextGenerate [handle, count, ids, list] 0)
    (hn : n = { fn := .generate, roles := [.context, .count, .ptr, .ptrs] })
    (hh : Holding mem issued w.callMem info) (hi : issued handle = some ctx)
    (ha : n.Admissible mem issued call w) (hr : n.Regular mem issued call w) :
    n.Simulates mem issued call w := by
  have hl : list ≠ 0 ∨ count = 0 := by
    simpa [ImportCall.val, hc.vals] using hr.generate (by rw [hn])
  have hp : ids.toNat < 2 ^ 31 := ha (ids, .ptr) <| by simp [hc.vals, hn]
  obtain ⟨hb, hs, he⟩ : Admits mem issued call w list .ptrs :=
    ha (list, .ptrs) <| by simp [hc.vals, hn]
  have hv : call.val 1 = count := by simp [ImportCall.val, hc.vals]
  rw [hv] at hs he
  have hz := ((call.enter w).memories mem).size_le
  obtain ⟨accesses, hw⟩ := @generate_ok _ (call.enter w) _ _ _ ids _ (hh.denotes hi) (by omega) hl
  have hg : n.hostArgs mem issued call w = [.ctx ctx, .i32 count, .ptr (voidPtr ids mem), .ptrs <|
      (List.range count.toNat).map fun i : Nat => voidPtr
        (((call.enter w).memories mem).bytes.readWord 32 (list.toInt + 4 * i)) mem] := by
    have ht : ∀ i ∈ List.range count.toNat, guestPtr mem (guestWord (bytes mem call w) list i) =
        voidPtr (((call.enter w).memories mem).bytes.readWord 32 (list.toInt + 4 * i)) mem := by
      intro i hi
      rw [← voidPtr_eq (he i <| List.mem_range.mp hi), guestWord, toInt_eq_toNat hb]
      rfl
    simp [hn, hostArgs, hc.vals, hostArg, hi, hv, voidPtr_eq hp, List.map_congr_left ht]
  refine ⟨_, hc.run.trans hw, ?_, ?_, ?_⟩
  · rw [hg, hn]
    rfl
  · rw [hg, hn]
    rfl
  · rw [answer, hn]
    trivial

end Native.Simulates

-- The outcome of the two bindings which hand out a handle.
def Native.Derived (n : Native) (mem : MemPtr) (issued : Handles) (call : ImportCall) (w : World)
    (info : CallMemInfo) : Prop :=
  ∃ trace ctx, n.answer mem issued call w = .context ctx ∧
    call.run w = .ok none (((n.before issued call w).called n.fn
      (n.hostArgs mem issued call w)).derived { info with methodTrace := trace } mem ctx)

namespace Native.Derived

variable {n : Native} {mem : MemPtr} {issued : Handles} {call : ImportCall} {w : World}
  {handle : BitVec 32} {ctx : CtxPtr} {info : CallMemInfo}

theorem parent (hc : Runs call wasmEcsactSystemExecutionContextParent [handle] 1)
    (hn : n = { fn := .parent, roles := [.context], asksId := true })
    (hh : Holding mem issued w.callMem info) (hi : issued handle = some ctx)
    (hl : info.dataOffset + 16 ≤ 4096) : n.Derived mem issued call w info := by
  have hb : n.before issued call w = (call.enter w).called .id [.ctx ctx] := by
    simp [hn, before, ImportCall.val, hc.vals, hi]
  have hg : n.hostArgs mem issued call w = [.ctx ctx] := by
    simp [hn, hostArgs, hc.vals, hostArg, hi]
  obtain ⟨trace, hp⟩ := parent_ok (w := call.enter w) (hh.denotes hi) hh.eq hh.fresh (by omega)
    (by simp [hc.enter_results])
  refine ⟨trace, w.runtime.parent
    (((call.enter w).called .id [.ctx ctx]).hostView .parent [.ctx ctx]), ?_, ?_⟩
  · rw [answer, hb, hg, hn]
    rfl
  · rw [hb, hg, hn]
    exact hc.run.trans hp

theorem other {assocId : BitVec 32}
    (hc : Runs call wasmEcsactSystemExecutionContextOther [handle, assocId] 1)
    (hn : n = { fn := .other, roles := [.context, .id], asksId := true })
    (hh : Holding mem issued w.callMem info) (hi : issued handle = some ctx)
    (hl : info.dataOffset + 16 ≤ 4096) : n.Derived mem issued call w info := by
  have hb : n.before issued call w = (call.enter w).called .id [.ctx ctx] := by
    simp [hn, before, ImportCall.val, hc.vals, hi]
  have hg : n.hostArgs mem issued call w = [.ctx ctx, .i32 assocId] := by
    simp [hn, hostArgs, hc.vals, hostArg, hi]
  obtain ⟨trace, hp⟩ := @other_ok _ (call.enter w) _ _ _ assocId (hh.denotes hi) hh.eq
    hh.fresh (by omega) (by simp [hc.enter_results])
  refine ⟨trace, w.runtime.other
    (((call.enter w).called .id [.ctx ctx]).hostView .other [.ctx ctx, .i32 assocId]), ?_, ?_⟩
  · rw [answer, hb, hg, hn]
    rfl
  · rw [hb, hg, hn]
    exact hc.run.trans hp

theorem simulates_of_derived (h : n.Derived mem issued call w info)
    (hh : Holding mem issued w.callMem info)
    (hl : info.dataOffset + 16 ≤ 4096) (hk : (call.enter w).results = [none])
    (hr : n.Regular mem issued call w) : n.Simulates mem issued call w := by
  have ⟨trace, ctx, hw, hp⟩ := h
  have hb : (n.before issued call w).results = [none] := by
    simp only [before]
    split <;> exact hk
  refine ⟨_, hp, ?_, rfl, ?_⟩
  · simp [World.derived, called]
  · rw [hw]
    refine ⟨BitVec.ofNat 32 (info.dataOffset + 8), ?_, ?_, hh.next_eq_none⟩
    · simp [World.derived, called, hb]
    · have hz : BitVec.ofNat 32 (info.dataOffset + 8) ≠ 0 := by
        intro h
        have hz := congrArg BitVec.toNat h
        simp at hz
        omega
      exact iff_of_false hz <| hr.nonNull _ hw

end Native.Derived

variable {mem : MemPtr} {issued : Handles} {call : ImportCall} {w w' : World} {n : Native}
  {info : CallMemInfo}

namespace Native.Admissible

variable {handle v : BitVec 32}

theorem exists_issued (h : n.Admissible mem issued call w) {vs : List (BitVec 32)}
    {roles : List Role} (hv : call.vals = handle :: vs) (hr : n.roles = .context :: roles) :
    ∃ ctx, issued handle = some ctx :=
  Option.isSome_iff_exists.mp <| h (handle, .context) <| by simp [hv, hr]

theorem ptr_lt (h : n.Admissible mem issued call w) (hm : (v, Role.ptr) ∈ call.vals.zip n.roles) :
    v.toNat < 2 ^ 31 :=
  h (v, .ptr) hm

end Native.Admissible

open Native

-- The two bindings which make a handle of what the runtime returns.
theorem eq_of_asksId : ∀ e ∈ nativeApi, e.2.asksId →
    e = ("ecsact_system_execution_context_parent",
      { fn := .parent, roles := [.context], asksId := true }) ∨
    e = ("ecsact_system_execution_context_other",
      { fn := .other, roles := [.context, .id], asksId := true }) := by
  simp [nativeApi]

theorem derived_of_asksId (hh : Holding mem issued w.callMem info)
    (hn : (call.name, n) ∈ nativeApi) (hq : n.asksId) (ha : n.Admissible mem issued call w)
    (hl : info.dataOffset + 16 ≤ 4096) :
    n.Derived mem issued call w info ∧ (call.enter w).results = [none] := by
  cases eq_of_asksId _ hn hq
  case inl h =>
    obtain ⟨hp, rfl⟩ := Prod.mk.inj h
    obtain ⟨vs, hv, hc⟩ := exists_runs hp rfl (k := 1) rfl
    match vs, hv with
    | [handle], _ =>
      have ⟨ctx, hi⟩ := ha.exists_issued hc.vals rfl
      exact ⟨.parent hc rfl hh hi hl, hc.enter_results⟩
  case inr h =>
    obtain ⟨hp, rfl⟩ := Prod.mk.inj h
    obtain ⟨vs, hv, hc⟩ := exists_runs hp rfl (k := 2) rfl
    match vs, hv with
    | [handle, assocId], _ =>
      have ⟨ctx, hi⟩ := ha.exists_issued hc.vals rfl
      exact ⟨.other hc rfl hh hi hl, hc.enter_results⟩

theorem Pass.value_eq {pass : Pass} {v : BitVec 32} (h : Admits mem issued call w v pass.role) :
    pass.value v mem = hostArg mem issued call w v pass.role := by
  cases pass
  case id | bool      => rfl
  case ptr | constPtr => exact congrArg HostArg.ptr <| voidPtr_eq h

-- The bindings which pass their arguments on one by one, in order.
theorem simulates_in_order {name : String} {passed : List (Nat × Pass)} {vs : List (BitVec 32)}
    (hh : Holding mem issued w.callMem info) (ha : n.Admissible mem issued call w)
    (hc : Runs call (forwardVoid name n.fn passed) vs 0) (hv : vs.length = passed.length + 1)
    (hr : n.roles = .context :: passed.map (·.2.role))
    (hp : passed.map Prod.fst = List.range' 1 passed.length) (hq : n.asksId = false)
    (hn : ∀ runtime view, Answer.of runtime view n.fn = .nothing) :
    n.Simulates mem issued call w := by
  cases vs
  case nil => cases hv
  case cons handle vs =>
    replace hv : vs.length = passed.length := Nat.succ.inj hv
    have ⟨ctx, hi⟩ := ha.exists_issued hc.vals hr
    have hx (i : Nat) (h : i < passed.length) : passed[i].1 = i + 1 := by
      have hg := congrArg (·[i]?) hp
      simp [h] at hg
      omega
    refine .void hc hr hq hn hh hi (fun e he => ?_) ?_
    · have ⟨i, h, he⟩ := List.getElem_of_mem he
      rw [← he, hx i h]
      omega
    · refine List.ext_getElem (by simp [hv]) fun i h₁ h₂ => ?_
      have h : i < passed.length := by simpa using h₁
      have hm : (vs[i], passed[i].2.role) ∈ call.vals.zip n.roles := by
        rw [hc.vals, hr]
        refine List.mem_cons_of_mem _ <| List.mem_iff_getElem.mpr ⟨i, by simp [hv, h], by simp⟩
      simp only [List.getElem_map, List.getElem_zipWith, hx i h, List.getD_cons_succ]
      rw [List.getD_eq_getElem?_getD, List.getElem?_eq_getElem (hv ▸ h), Option.getD_some]
      exact Pass.value_eq <| ha _ hm

theorem simulates_of_not_asksId (hh : Holding mem issued w.callMem info)
    (hm : (call.name, n) ∈ nativeApi) (hq : n.asksId = false) (ha : n.Admissible mem issued call w)
    (hr : n.Regular mem issued call w) : n.Simulates mem issued call w := by
  apply nativeApi_cases hm
  case action =>
    rintro hn rfl
    have ⟨vs, hv, hc⟩ := exists_runs hn rfl (k := 2) rfl
    exact simulates_in_order hh ha hc hv rfl rfl rfl fun _ _ => rfl
  case parent =>
    rintro hn rfl
    cases hq
  case same =>
    rintro hn rfl
    obtain ⟨vs, hv, hc⟩ := exists_runs hn rfl (k := 2) rfl
    match vs, hv with
    | [a, b], _ =>
      have ⟨ctx₁, h₁⟩ := ha.exists_issued hc.vals rfl
      have ⟨ctx₂, h₂⟩ := Option.isSome_iff_exists.mp <| ha (b, .context) <| by simp [hc.vals]
      exact .same hc rfl hh h₁ h₂
  case get =>
    rintro hn rfl
    have ⟨vs, hv, hc⟩ := exists_runs hn rfl (k := 4) rfl
    exact simulates_in_order hh ha hc hv rfl rfl rfl fun _ _ => rfl
  case update =>
    rintro hn rfl
    have ⟨vs, hv, hc⟩ := exists_runs hn rfl (k := 4) rfl
    exact simulates_in_order hh ha hc hv rfl rfl rfl fun _ _ => rfl
  case has =>
    rintro hn rfl
    exact absurd rfl hr.has
  case generate =>
    rintro hn rfl
    obtain ⟨vs, hv, hc⟩ := exists_runs hn rfl (k := 4) rfl
    match vs, hv with
    | [handle, count, ids, list], _ =>
      have ⟨ctx, hi⟩ := ha.exists_issued hc.vals rfl
      exact .generate hc rfl hh hi ha hr
  case add =>
    rintro hn rfl
    have ⟨vs, hv, hc⟩ := exists_runs hn rfl (k := 3) rfl
    exact simulates_in_order hh ha hc hv rfl rfl rfl fun _ _ => rfl
  case remove =>
    rintro hn rfl
    have ⟨vs, hv, hc⟩ := exists_runs hn rfl (k := 3) rfl
    exact simulates_in_order hh ha hc hv rfl rfl rfl fun _ _ => rfl
  case other =>
    rintro hn rfl
    cases hq
  case entity =>
    rintro hn rfl
    obtain ⟨vs, hv, hc⟩ := exists_runs hn rfl (k := 1) rfl
    match vs, hv with
    | [handle], _ =>
      have ⟨ctx, hi⟩ := ha.exists_issued hc.vals rfl
      exact .entity hc rfl hh hi
  case streamToggle =>
    rintro hn rfl
    obtain ⟨vs, hv, hc⟩ := exists_runs hn rfl (k := 4) rfl
    match vs, hv with
    | [handle, componentId, flag, p], _ =>
      have ⟨ctx, hi⟩ := ha.exists_issued hc.vals rfl
      have hp := ha.ptr_lt (v := p) <| by simp [hc.vals]
      have he : flag = p := by
        simpa [ImportCall.val, hc.vals] using hr.streamToggle rfl
      exact .void hc rfl rfl (fun _ _ => rfl) hh hi (by simp) <| by
        simp [Pass.value, hostArg, voidPtr_eq hp, he]

theorem simulates_of_holding (hh : Holding mem issued w.callMem info)
    (hn : (call.name, n) ∈ nativeApi) (ha : n.Admissible mem issued call w)
    (hr : n.Regular mem issued call w) : n.Simulates mem issued call w := by
  cases hq : n.asksId
  case false => exact simulates_of_not_asksId hh hn hq ha hr
  case true =>
    have hl := hr.fits hq info hh.eq
    rw [hh.maxSize] at hl
    have ⟨hd, hk⟩ := derived_of_asksId hh hn hq ha hl
    exact hd.simulates_of_derived hh hl hk hr

theorem asksId_iff : ∀ e ∈ nativeApi, e.2.asksId = true ↔ DerivesHandle e.1 := by
  decide

-- All other bindings hand out no handle.
theorem issue_of_not_asksId : ∀ e ∈ nativeApi, e.2.asksId = false →
    ∀ runtime view results issued, (Answer.of runtime view e.2.fn).issue results issued = issued := by
  simp only [nativeApi, List.forall_mem_cons]
  exact ⟨fun _ _ _ _ _ => rfl, fun h => absurd h <| by decide, fun _ _ _ _ _ => rfl,
    fun _ _ _ _ _ => rfl, fun _ _ _ _ _ => rfl, fun _ _ _ _ _ => rfl, fun _ _ _ _ _ => rfl,
    fun _ _ _ _ _ => rfl, fun _ _ _ _ _ => rfl, fun h => absurd h <| by decide,
    fun _ _ _ _ _ => rfl, fun _ _ _ _ _ => rfl, List.forall_mem_nil _⟩

theorem derives_mem_nativeApi (h : call.Derives) : ∃ e ∈ nativeApi, e.1 = call.name := by
  cases h
  case inl h => exact ⟨(_, { fn := .parent, roles := [.context], asksId := true }),
    by simp [nativeApi], h.symm⟩
  case inr h => exact ⟨(_, { fn := .other, roles := [.context, .id], asksId := true }),
    by simp [nativeApi], h.symm⟩

-- What the two bindings leave behind.
theorem Native.Derived.eq (h : n.Derived mem issued call w info)
    (hk : (call.enter w).results = [none]) (hx : call.run w = .ok none w') :
    ∃ trace ctx, n.answer mem issued call w = .context ctx ∧
      w'.results = [some (.i32 (BitVec.ofNat 32 (info.dataOffset + 8)))] ∧
      w'.callMem = { w.callMem with
        info := some ({ info with methodTrace := trace }.derive w.callMem.ndebug mem ctx)
      } := by
  have ⟨trace, ctx, hw, hp⟩ := h
  have hb : (n.before issued call w).callMem = w.callMem ∧
      (n.before issued call w).results = [none] := by
    simp only [before]
    split <;> exact ⟨rfl, hk⟩
  cases hp.symm.trans hx
  exact ⟨trace, ctx, hw, by simp [World.derived, called, hb.2],
    by simp [World.derived, called, hb.1]⟩

theorem Holding.withTrace (hh : Holding mem issued w.callMem info) (trace : List String) :
    Holding mem issued { w.callMem with info := some { info with methodTrace := trace } }
      { info with methodTrace := trace } :=
  ⟨rfl, hh.fresh, hh.maxSize, hh.le, fun handle ctx hc =>
    have ⟨hg, hu, hx, hm, ht⟩ := hh.holds handle ctx hc
    ⟨hg, hu, hx, hm, ht⟩⟩

theorem Holding.issue (hh : Holding mem issued w.callMem info) (hd : n.Derived mem issued call w info)
    (hk : (call.enter w).results = [none]) (hl : info.dataOffset + 16 ≤ 4096)
    (hx : call.run w = .ok none w') : ∃ info',
      Holding mem ((n.answer mem issued call w).issue w'.results issued) w'.callMem info' := by
  have ⟨trace, ctx, hw, hr, hc⟩ := hd.eq hk hx
  have hi : (n.answer mem issued call w).issue w'.results issued =
      Function.update issued (BitVec.ofNat 32 (info.dataOffset + 8)) (some ctx) := by
    rw [hw, hr]
    rfl
  rw [hi, hc]
  exact ⟨_, (hh.withTrace trace).derive hl⟩

-- A call of a binding which does not meet a slip keeps the slots of the handles.
theorem Holding.binding (hh : Holding mem issued w.callMem info) (hn : (call.name, n) ∈ nativeApi)
    (ha : n.Admissible mem issued call w) (hr : n.Regular mem issued call w)
    (hx : call.run w = .ok none w') : ∃ info',
      Holding mem ((n.answer mem issued call w).issue w'.results issued) w'.callMem info' := by
  cases hq : n.asksId
  case false =>
    have hd : ¬call.Derives := fun hd => by
      have hd := (asksId_iff _ hn).mpr hd
      rw [hq] at hd
      cases hd
    have ⟨_, hh⟩ := hh.of_untraced <| (ImportCall.within_untraced hd).of_ok (s := call.enter w) hx
    rw [answer, issue_of_not_asksId _ hn hq]
    exact ⟨_, hh⟩
  case true =>
    have hl := hr.fits hq info hh.eq
    rw [hh.maxSize] at hl
    have ⟨hd, hk⟩ := derived_of_asksId hh hn hq ha hl
    exact hh.issue hd hk hl hx

-- Whatever a guest has called so far, the handles it was given have their slots.
theorem Session.holding (h : Session mem w issued) : ∃ info, Holding mem issued w.callMem info := by
  induction h
  case enter h => exact holding_enter h
  case wasi w w' issued call _ hn hr hi =>
    have ⟨info, hh⟩ := hi
    have hd : ¬call.Derives := fun hd =>
      have ⟨e, he, hc⟩ := derives_mem_nativeApi hd
      hn e he hc
    have ⟨_, hh⟩ := hh.of_untraced <| (ImportCall.within_untraced hd).of_ok (s := call.enter w) hr
    exact ⟨_, hh⟩
  case binding hn ha hr hx hi =>
    have ⟨_, hh⟩ := hi
    exact hh.binding hn ha hr hx

-- Every call of a session which does not meet a slip does what the native function does.
theorem Session.simulates (h : Session mem w issued) (hn : (call.name, n) ∈ nativeApi)
    (ha : n.Admissible mem issued call w) (hr : n.Regular mem issued call w) :
    n.Simulates mem issued call w := by
  have ⟨info, hh⟩ := h.holding
  exact simulates_of_holding hh hn ha hr

def systemHandles : Handles :=
  Function.update (fun _ => none) 8 (some 2)

theorem systemWorld_session : Session 1 (systemWorld true) systemHandles :=
  @Session.enter 1 (World.idle .inert true) 2 8 _ <| enterSystem_eq_ok.mpr ⟨nofun, rfl, rfl⟩

def streamToggle : Native :=
  { fn := .streamToggle, roles := [.context, .id, .flag, .ptr] }

theorem streamToggle_mem :
    ("ecsact_system_execution_context_stream_toggle", streamToggle) ∈ nativeApi := by
  simp [nativeApi, streamToggle]

theorem streamToggleEntry_mem : ("ecsact_system_execution_context_stream_toggle",
    ⟨wasmFunctypeNew40 .i32 .i32 .i32 .i32, wasmEcsactSystemExecutionContextStreamToggle⟩) ∈
    importTables := by
  simp [importTables, guestEnvModuleImports]

def streamToggleCall (flag ptr : BitVec 32) : ImportCall where
  name  := "ecsact_system_execution_context_stream_toggle"
  func  := ⟨wasmFunctypeNew40 .i32 .i32 .i32 .i32, wasmEcsactSystemExecutionContextStreamToggle⟩
  mem   := streamToggleEntry_mem
  args  := [.i32 8, .i32 0, .i32 flag, .i32 ptr]
  typed := rfl

section

variable {flag ptr : BitVec 32}

theorem streamToggle_admissible (h : ptr.toNat < 2 ^ 31) :
    streamToggle.Admissible 1 systemHandles (streamToggleCall flag ptr) (systemWorld true) := by
  have hi : (systemHandles 8#32).isSome := rfl
  simpa [Admissible, Admits, streamToggleCall, ImportCall.vals, streamToggle, hi] using h

theorem streamToggle_regular :
    streamToggle.Regular 1 systemHandles (streamToggleCall flag flag) (systemWorld true) where
  has          := nofun
  streamToggle := fun _ => rfl
  generate     := nofun
  nonNull      := nofun
  fits         := nofun

end

theorem streamToggle_simulates : streamToggle.Simulates 1 systemHandles (streamToggleCall 1 1)
    (systemWorld true) :=
  systemWorld_session.simulates streamToggle_mem (streamToggle_admissible (by decide))
    streamToggle_regular

-- With the component's data at 16, the runtime gets a pointer to 1.
theorem streamToggle_not_simulates :
    Session 1 (systemWorld true) systemHandles ∧
    streamToggle.Admissible 1 systemHandles (streamToggleCall 1 16) (systemWorld true) ∧
    ¬streamToggle.Simulates 1 systemHandles (streamToggleCall 1 16) (systemWorld true) := by
  refine ⟨systemWorld_session, streamToggle_admissible (by decide), fun ⟨w', hr, hc, _⟩ => ?_⟩
  have hs : ((streamToggleCall 1 16).run (systemWorld true)).state.hostCalls =
      [⟨.streamToggle, [.ctx 2, .i32 0, .bool true, .ptr (.data 1 1)]⟩] := by
    decide
  rw [hr] at hs
  replace hc := hs.symm.trans hc
  revert hc
  decide

end Ecsact
