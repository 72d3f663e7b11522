import EcsactSiWasmer.Objects.CallMem

open EStateM

namespace Ecsact

namespace CallMemInfo

-- The slot for one more value, which holds it.
def alloc (info : CallMemInfo) (ndebug : Bool) (v : BitVec 64) (type : SlotType) : CallMemInfo :=
  { info with
    data            := info.data.writeWord (BitVec.ofNat 32 info.dataOffset).toInt v
    dataOffset      := info.dataOffset + 8
    dataOffsetTypes := CallMem.assignOffsetType ndebug info type
    slots           := info.slots ++ [⟨info.dataOffset, 8⟩]
  }

-- No type is recorded at the offsets which are yet to be handed out.
def Fresh (info : CallMemInfo) : Prop :=
  ∀ k, info.dataOffset ≤ k → info.dataOffsetTypes k = none

variable {info : CallMemInfo} {ndebug : Bool} {v : BitVec 64} {type : SlotType}

theorem Fresh.alloc (h : info.Fresh) : (info.alloc ndebug v type).Fresh := by
  intro k hk
  replace hk : info.dataOffset + 8 ≤ k := hk
  simp only [CallMemInfo.alloc, CallMem.assignOffsetType]
  split
  case isTrue  => exact h k <| by omega
  case isFalse => rw [Function.update_of_ne (by omega), h k (by omega)]

end CallMemInfo

namespace CallMem

-- Call memory without its trace of method names.
def untraced (c : CallMem) : CallMem :=
  { c with info := c.info.map ({ · with methodTrace := [] }) }

variable {c c' : CallMem} {info info' : CallMemInfo} {offset : BitVec 32} {type : SlotType}
  {v : BitVec 64} {b : Bool}

theorem info_of_untraced (hi : c.info = some info) (hu : c'.untraced = c.untraced) :
    ∃ trace, c'.info = some { info with methodTrace := trace } := by
  have hn := congrArg CallMem.info hu
  simp only [untraced, hi, Option.map_some, Option.map_eq_some_iff] at hn
  have ⟨info', hi', hn⟩ := hn
  refine ⟨info'.methodTrace, ?_⟩
  cases info'
  cases info
  simp_all

-- What `debug_trace_method` leaves behind.
def traced (c : CallMem) (name : String) : CallMem :=
  if c.ndebug then c
  else { c with info := c.info.map fun i => { i with methodTrace := i.methodTrace ++ [name] } }

@[simp]
theorem traced_ndebug {name : String} : (c.traced name).ndebug = c.ndebug := by
  simp only [traced]
  split <;> rfl

theorem traced_eq (hi : c.info = some info) (name : String) :
    ∃ trace, c.traced name = ⟨c.ndebug, some { info with methodTrace := trace }⟩ := by
  cases c
  cases hi
  simp only [traced]
  split
  case isTrue  => exact ⟨info.methodTrace, rfl⟩
  case isFalse => exact ⟨info.methodTrace ++ [name], rfl⟩

theorem assert_ok (h : c.ndebug = false → b = true) : assert b c = .ok () c := by
  simp only [assert, bind_ok (get_apply c)]
  cases hn : c.ndebug
  case true  => simp; rfl
  case false => simp [h hn]; rfl

theorem assert_error (hn : c.ndebug = false) (h : b = false) :
    assert b c = .error .assertFailed c := by
  simp only [assert, bind_ok (get_apply c), hn, h]
  rfl

theorem assert_cases : ((c.ndebug = false → b = true) ∧ assert b c = .ok () c) ∨
    ((c.ndebug = false ∧ b = false) ∧ assert b c = .error .assertFailed c) := by
  by_cases hb : c.ndebug = false → b = true
  case pos => exact .inl ⟨hb, assert_ok hb⟩
  case neg =>
    simp only [Classical.not_imp, Bool.not_eq_true] at hb
    exact .inr ⟨hb, assert_error hb.1 hb.2⟩

theorem assert_eq_ok (h : assert b c = .ok () c') : c' = c := by
  cases @assert_cases c b
  case inl ha =>
    cases ha.2.symm.trans h
    rfl
  case inr ha => cases ha.2.symm.trans h

theorem assertHasValue_ok (h : c.info = some info) : assertHasValue c = .ok () c :=
  assert_ok fun _ => by simp [h]

theorem value_ok (h : c.info = some info) : value c = .ok info c := by
  simp only [value, bind_ok (get_apply c), h]
  rfl

theorem value_error (h : c.info = none) : value c = .error (.undefined "call_mem_info") c := by
  simp only [value, bind_ok (get_apply c), h]
  rfl

section

variable {α β : Type} {f : Unit → CallMemM α} {g : CallMemInfo → CallMemM α} {a : α}

theorem assert_bind_eq_ok :
    (assert b >>= f) c = .ok a c' ↔ (c.ndebug = false → b = true) ∧ f () c = .ok a c' := by
  cases @assert_cases c b
  case inl ha =>
    rw [bind_ok ha.2]
    exact ⟨.intro ha.1, And.right⟩
  case inr ha =>
    rw [bind_error ha.2]
    simp [ha.1]

theorem assertHasValue_bind_eq_ok : (assertHasValue >>= f) c = .ok a c' ↔
    (c.ndebug = false → c.info.isSome) ∧ f () c = .ok a c' :=
  assert_bind_eq_ok

theorem value_bind_eq_ok :
    (value >>= g) c = .ok a c' ↔ ∃ info, c.info = some info ∧ g info c = .ok a c' := by
  cases hi : c.info
  case none => rw [bind_error (value_error hi)]; simp
  case some => rw [bind_ok (value_ok hi)]; simp

end

@[simp]
theorem traced_info_eq_none {name : String} : (c.traced name).info = none ↔ c.info = none := by
  simp only [traced]
  split <;> simp

-- The conditions which a read asserts.
def Holds (c : CallMem) (info : CallMemInfo) (offset : BitVec 32) (type : SlotType) : Prop :=
  c.ndebug = false →
    offsetKey offset < info.dataOffset ∧ info.dataOffsetTypes (offsetKey offset) = some type

theorem callMemReadRaw_eq_ok {ptr : Int} : callMemReadRaw offset type c = .ok ptr c' ↔
    ∃ info, c.info = some info ∧ Holds c info offset type ∧ ptr = offset.toInt ∧ c' = c := by
  simp only [callMemReadRaw, assertHasValue_bind_eq_ok, value_bind_eq_ok, assert_bind_eq_ok,
    pure_apply, Result.ok.injEq, decide_eq_true_eq]
  constructor
  case mp =>
    intro ⟨_, info, hi, hl, ht, hp, hc⟩
    exact ⟨info, hi, fun hn => ⟨hl hn, ht hn⟩, hp.symm, hc.symm⟩
  case mpr =>
    intro ⟨info, hi, hh, hp, hc⟩
    exact ⟨fun _ => by simp [hi], info, hi, fun hn => (hh hn).1, fun hn => (hh hn).2, hp.symm, hc.symm⟩

theorem callMemRead_eq_ok : callMemRead offset type c = .ok v c' ↔
    ∃ info, c.info = some info ∧ Holds c info offset type ∧
      v = info.data.readWord 64 offset.toInt ∧ c' = c := by
  simp only [callMemRead, @bind_eq_ok _ _ _ _ (callMemReadRaw offset type), callMemReadRaw_eq_ok,
    value_bind_eq_ok, pure_apply, Result.ok.injEq]
  constructor
  case mp =>
    rintro ⟨_, _, ⟨info, hi, hh, rfl, rfl⟩, info', hi', hv, rfl⟩
    rw [hi] at hi'
    cases hi'
    exact ⟨info, hi, hh, hv.symm, rfl⟩
  case mpr =>
    rintro ⟨info, hi, hh, rfl, rfl⟩
    exact ⟨_, _, ⟨info, hi, hh, rfl, rfl⟩, info, hi, rfl, rfl⟩

-- A read which fails does so in an assert, or without call memory in a build which has none.
def Refused (c : CallMem) (e : Fault) : Prop :=
  c.ndebug = false ∧ e = .assertFailed ∨
    c.ndebug = true ∧ c.info = none ∧ e = .undefined "call_mem_info"

theorem refused_traced {name : String} {e : Fault} : (c.traced name).Refused e ↔ c.Refused e := by
  simp [Refused]

theorem callMemRead_cases : (∃ v, callMemRead offset type c = .ok v c) ∨
    ∃ e, c.Refused e ∧ callMemRead offset type c = .error e c := by
  cases hi : c.info
  case none =>
    cases hn : c.ndebug
    case true =>
      have ha : assertHasValue c = .ok () c := assert_ok fun h => by simp [hn] at h
      have hr : callMemReadRaw offset type c = .error (.undefined "call_mem_info") c := by
        rw [callMemReadRaw, bind_ok ha, bind_error (value_error hi)]
      exact .inr ⟨_, .inr ⟨hn, hi, rfl⟩, bind_error hr⟩
    case false =>
      have ha : assertHasValue c = .error .assertFailed c := assert_error hn <| by simp [hi]
      exact .inr ⟨_, .inl ⟨hn, rfl⟩, bind_error <| bind_error ha⟩
  case some info =>
    by_cases hh : Holds c info offset type
    case pos => exact .inl ⟨_, callMemRead_eq_ok.mpr ⟨info, hi, hh, rfl, rfl⟩⟩
    case neg =>
      simp only [Holds, Classical.not_imp] at hh
      have ⟨hn, hh⟩ := hh
      refine .inr ⟨.assertFailed, .inl ⟨hn, rfl⟩, bind_error ?_⟩
      rw [callMemReadRaw, bind_ok (assertHasValue_ok hi), bind_ok (value_ok hi)]
      by_cases hl : offsetKey offset < info.dataOffset
      case neg => exact bind_error <| assert_error hn <| by simpa using hl
      case pos =>
        rw [bind_ok (assert_ok fun _ => by simpa using hl)]
        exact bind_error <| assert_error hn <| by simpa using fun ht => hh ⟨hl, ht⟩

-- A read fails or succeeds without an effect, and does not look at the trace.
theorem callMemRead_of_untraced (hu : c'.untraced = c.untraced)
    (h : callMemRead offset type c = .ok v c) : callMemRead offset type c' = .ok v c' := by
  have ⟨info, hi, hh, hv, _⟩ := callMemRead_eq_ok.mp h
  have ⟨_, hi'⟩ := info_of_untraced hi hu
  have hn : c'.untraced.ndebug = c.untraced.ndebug := congrArg CallMem.ndebug hu
  exact callMemRead_eq_ok.mpr ⟨_, hi', fun hd => hh <| hn.symm.trans hd, hv, rfl⟩

theorem untraced_traced {name : String} : (c.traced name).untraced = c.untraced := by
  cases hi : c.info
  all_goals
    simp only [traced, untraced, hi]
    split <;> simp [hi]

-- Without the asserts every read succeeds.
theorem callMemRead_of_ndebug (hn : c.ndebug = true) (hi : c.info = some info) :
    callMemRead offset type c = .ok (info.data.readWord 64 offset.toInt) c :=
  callMemRead_eq_ok.mpr ⟨info, hi, fun hd => by simp [hn] at hd, rfl, rfl⟩

-- What `call_mem_alloc_raw` does before the value is written.
def reserved (c : CallMem) (info : CallMemInfo) (type : SlotType) : CallMem :=
  { c with info := some { info with
      dataOffset      := info.dataOffset + 8
      dataOffsetTypes := assignOffsetType c.ndebug info type
      slots           := info.slots ++ [⟨info.dataOffset, 8⟩]
    }
  }

theorem callMemAllocRaw_eq_ok : callMemAllocRaw 8 type c = .ok offset c' ↔
    ∃ info, c.info = some info ∧
      (c.ndebug = false → info.dataOffsetTypes info.dataOffset = none ∧ 0 ≤ offset.toInt) ∧
      offset = BitVec.ofNat 32 info.dataOffset ∧ c' = reserved c info type := by
  simp only [callMemAllocRaw, assertHasValue_bind_eq_ok, value_bind_eq_ok, assert_bind_eq_ok,
    bind_ok (get_apply _), setValue, bind_ok (modify_apply ..), pure_apply, Result.ok.injEq,
    decide_eq_true_eq, Bool.not_eq_true', Option.isSome_eq_false_iff, Option.isNone_iff_eq_none]
  constructor
  case mp =>
    rintro ⟨_, _, info, hi, ht, hp, rfl, rfl⟩
    exact ⟨info, hi, fun hn => ⟨ht hn, hp hn⟩, rfl, rfl⟩
  case mpr =>
    rintro ⟨info, hi, hh, rfl, rfl⟩
    exact ⟨fun _ => by simp [hi], fun _ => by decide, info, hi, fun hn => (hh hn).1,
      fun hn => (hh hn).2, rfl, rfl⟩

-- The conditions which an allocation asserts.
def Fits (c : CallMem) (info : CallMemInfo) (type : SlotType) : Prop :=
  let offset := BitVec.ofNat 32 info.dataOffset
  c.ndebug = false → info.dataOffsetTypes info.dataOffset = none ∧ 0 ≤ offset.toInt ∧
    offsetKey offset < info.dataOffset + 8 ∧
    assignOffsetType false info type (offsetKey offset) = some type

theorem callMemAlloc_eq_ok : callMemAlloc v type c = .ok offset c' ↔
    ∃ info, c.info = some info ∧ Fits c info type ∧ offset = BitVec.ofNat 32 info.dataOffset ∧
      c' = { c with info := some (info.alloc c.ndebug v type) } := by
  simp only [callMemAlloc, @bind_eq_ok _ _ _ _ (callMemAllocRaw 8 type), callMemAllocRaw_eq_ok,
    @bind_eq_ok _ _ _ _ (callMemReadRaw _ type), callMemReadRaw_eq_ok, value_bind_eq_ok, setValue,
    bind_ok (modify_apply ..), pure_apply, Result.ok.injEq]
  constructor
  case mp =>
    rintro ⟨_, _, ⟨info, hi, ha, rfl, rfl⟩, _, _, ⟨_, hr, hh, rfl, rfl⟩, _, hr', rfl, rfl⟩
    cases hr
    cases hr'
    refine ⟨info, hi, fun hn => ?_, rfl, rfl⟩
    have ⟨hl, ht⟩ := hh hn
    exact ⟨(ha hn).1, (ha hn).2, hl, by simpa [hn] using ht⟩
  case mpr =>
    rintro ⟨info, hi, hf, rfl, rfl⟩
    refine ⟨_, _, ⟨info, hi, fun hn => ⟨(hf hn).1, (hf hn).2.1⟩, rfl, rfl⟩, _, _,
      ⟨_, rfl, fun hn => ?_, rfl, rfl⟩, _, rfl, rfl, rfl⟩
    have ⟨_, _, hl, ht⟩ := hf hn
    exact ⟨hl, by simpa [show c.ndebug = false from hn] using ht⟩

theorem offsetKey_ofNat {n : Nat} (h : n < 2 ^ 31) : offsetKey (BitVec.ofNat 32 n) = n := by
  have hm : (BitVec.ofNat 32 n).msb = false := by
    rw [BitVec.msb_eq_decide]
    simp
    omega
  rw [offsetKey, BitVec.toNat_signExtend, hm]
  simp
  omega

-- No allocation below 2 ^ 31 is refused.
theorem fits (hf : info.Fresh) (hl : info.dataOffset < 2 ^ 31) : Fits c info type := by
  intro _
  have hk : offsetKey (BitVec.ofNat 32 info.dataOffset) = info.dataOffset := offsetKey_ofNat hl
  have hp : 0 ≤ (BitVec.ofNat 32 info.dataOffset).toInt := by
    rw [toInt_eq_toNat] <;> simp <;> omega
  refine ⟨hf _ le_rfl, hp, by omega, ?_⟩
  simp [hk, assignOffsetType]

theorem callMemAlloc_ok (hi : c.info = some info) (hf : info.Fresh) (hl : info.dataOffset < 2 ^ 31) :
    callMemAlloc v type c = .ok (BitVec.ofNat 32 info.dataOffset)
      { c with info := some (info.alloc c.ndebug v type) } :=
  callMemAlloc_eq_ok.mpr ⟨info, hi, fits hf hl, rfl, rfl⟩

section

variable {α : Type} {f : Unit → CallMemM α} {e : Fault}

theorem assert_bind_error (h : (assert b >>= f) c = .error e c') : c' = c ∨ f () c = .error e c' := by
  cases @assert_cases c b
  case inl ha =>
    rw [bind_ok ha.2] at h
    exact .inr h
  case inr ha =>
    rw [bind_error ha.2] at h
    cases h
    exact .inl rfl

theorem callMemReadRaw_error (hi : c.info = some info)
    (h : callMemReadRaw offset type c = .error e c') : c' = c := by
  rw [callMemReadRaw, bind_ok (assertHasValue_ok hi), bind_ok (value_ok hi)] at h
  cases assert_bind_error h
  case inl h => exact h
  case inr h =>
    cases assert_bind_error h
    case inl h => exact h
    case inr h => cases h

theorem callMemAllocRaw_error (hi : c.info = some info)
    (h : callMemAllocRaw 8 type c = .error e c') : c' = c ∨ c' = reserved c info type := by
  rw [callMemAllocRaw, bind_ok (assertHasValue_ok hi)] at h
  cases assert_bind_error h
  case inl h => exact .inl h
  case inr h =>
    rw [bind_ok (value_ok hi)] at h
    cases assert_bind_error h
    case inl h => exact .inl h
    case inr h =>
      rw [bind_ok (get_apply c), setValue, bind_ok (modify_apply ..)] at h
      cases assert_bind_error h
      case inl h => exact .inr h
      case inr h => cases h

-- An allocation which fails may leave its slot behind.
theorem callMemAlloc_error (hi : c.info = some info) (h : callMemAlloc v type c = .error e c') :
    c' = c ∨ c' = reserved c info type := by
  cases bind_eq_error.mp h
  case inl h => exact callMemAllocRaw_error hi h
  case inr h =>
    have ⟨_, c₁, h₁, h⟩ := h
    have ⟨info₁, hi₁, _, _, hc⟩ := callMemAllocRaw_eq_ok.mp h₁
    cases hi.symm.trans hi₁
    subst hc
    cases bind_eq_error.mp h
    case inl h => exact .inr <| callMemReadRaw_error rfl h
    case inr h =>
      have ⟨_, c₂, h₂, h⟩ := h
      have ⟨_, hi₂, _, _, hc⟩ := callMemReadRaw_eq_ok.mp h₂
      subst hc
      rw [bind_ok (value_ok hi₂), setValue, bind_ok (modify_apply ..)] at h
      cases h

end

-- The information which a call starts with, before anything is stored.
def blank : CallMemInfo where
  data    := .zeros
  maxSize := 4096

theorem fresh_blank : blank.Fresh :=
  fun _ _ => rfl

def systemInfo (ndebug : Bool) (mem : MemPtr) (ctx : CtxPtr) : CallMemInfo :=
  (blank.alloc ndebug mem .memory).alloc ndebug ctx .context

def initializeInfo (ndebug : Bool) (mem : MemPtr) : CallMemInfo :=
  blank.alloc ndebug mem .memory

variable {mem : MemPtr} {ctx : CtxPtr}

theorem setCallMemData_eq_ok {u : Unit} : setCallMemData (some .zeros) 4096 c = .ok u c' ↔
    (c.ndebug = false → c.info = none) ∧ c' = { c with info := some blank } := by
  simp only [setCallMemData, bind_ok (get_apply c), assert_bind_eq_ok, setValue, modify_apply,
    Result.ok.injEq, true_and, Bool.not_eq_true', Option.isSome_eq_false_iff,
    Option.isNone_iff_eq_none]
  exact and_congr_right fun _ => eq_comm

theorem enterInitialize_eq_ok {u : Unit} : enterInitialize mem c = .ok u c' ↔
    (c.ndebug = false → c.info = none) ∧
      c' = { c with info := some (initializeInfo c.ndebug mem) } := by
  have ha := @callMemAlloc_ok { c with info := some blank } blank .memory mem rfl fresh_blank
    (by decide)
  simp only [enterInitialize, @bind_eq_ok _ _ _ _ (setCallMemData (some .zeros) 4096),
    setCallMemData_eq_ok]
  constructor
  case mp =>
    rintro ⟨_, _, ⟨hn, rfl⟩, h⟩
    rw [bind_ok ha] at h
    cases h
    exact ⟨hn, rfl⟩
  case mpr =>
    rintro ⟨hn, rfl⟩
    refine ⟨(), _, ⟨hn, rfl⟩, ?_⟩
    rw [bind_ok ha]
    rfl

theorem enterSystem_eq_ok : enterSystem mem ctx c = .ok offset c' ↔
    (c.ndebug = false → c.info = none) ∧ offset = 8 ∧
      c' = { c with info := some (systemInfo c.ndebug mem ctx) } := by
  have ha := @callMemAlloc_ok { c with info := some blank } blank .memory mem rfl fresh_blank
    (by decide)
  have hb := @callMemAlloc_ok { c with info := some (initializeInfo c.ndebug mem) } _ .context ctx
    rfl fresh_blank.alloc (show 0 + 8 < 2 ^ 31 by decide)
  simp only [enterSystem, @bind_eq_ok _ _ _ _ (setCallMemData (some .zeros) 4096),
    setCallMemData_eq_ok]
  constructor
  case mp =>
    rintro ⟨_, _, ⟨hn, rfl⟩, h⟩
    rw [bind_ok ha] at h
    cases hb.symm.trans h
    exact ⟨hn, rfl, rfl⟩
  case mpr =>
    rintro ⟨hn, rfl, rfl⟩
    refine ⟨(), _, ⟨hn, rfl⟩, ?_⟩
    rw [bind_ok ha]
    exact hb

theorem avoids_assert : Avoids Fault.IsBadAccess (assert b) :=
  .bind .get fun _ => .ite (.throw id) .pure

theorem avoids_value : Avoids Fault.IsBadAccess value := by
  refine .bind .get fun c => ?_
  cases c.info
  case none => exact .throw id
  case some => exact .pure

theorem avoids_callMemReadRaw : Avoids Fault.IsBadAccess (callMemReadRaw offset type) :=
  .bind (.bind .get fun _ => avoids_assert) fun _ => .bind avoids_value fun _ =>
    .bind avoids_assert fun _ => .bind avoids_assert fun _ => .pure

theorem avoids_callMemRead : Avoids Fault.IsBadAccess (callMemRead offset type) :=
  .bind avoids_callMemReadRaw fun _ => .bind avoids_value fun _ => .pure

theorem avoids_callMemAllocRaw {n : Nat} : Avoids Fault.IsBadAccess (callMemAllocRaw n type) :=
  .bind (.bind .get fun _ => avoids_assert) fun _ => .bind avoids_assert fun _ =>
    .bind avoids_value fun _ => .bind avoids_assert fun _ => .bind .get fun _ =>
    .bind .modify fun _ => .bind avoids_assert fun _ => .pure

theorem avoids_callMemAlloc : Avoids Fault.IsBadAccess (callMemAlloc v type) :=
  .bind avoids_callMemAllocRaw fun _ => .bind avoids_callMemReadRaw fun _ =>
    .bind avoids_value fun _ => .bind .modify fun _ => .pure

theorem avoids_debugTraceMethod : Avoids Fault.IsBadAccess (debugTraceMethod name) :=
  .bind .get fun _ => .ite
    (.bind (.bind .get fun _ => avoids_assert) fun _ => .bind avoids_value fun _ => .modify) .pure

variable {R : CallMem → CallMem → Prop} [IsPreorder CallMem R]

theorem debugTraceMethod_ok (h : c.ndebug = false → c.info.isSome) :
    debugTraceMethod name c = .ok () (c.traced name) := by
  simp only [debugTraceMethod, bind_ok (get_apply c), traced]
  cases hn : c.ndebug
  case true  => rfl
  case false =>
    have ⟨info, hi⟩ := Option.isSome_iff_exists.mp (h hn)
    simp only [Bool.not_false, if_true]
    rw [bind_ok (assertHasValue_ok hi), bind_ok (value_ok hi), setValue, modify_apply]
    simp [hi, hn]

theorem debugTraceMethod_error (hn : c.ndebug = false) (hi : c.info = none) :
    debugTraceMethod name c = .error .assertFailed c := by
  have ha : assertHasValue c = .error .assertFailed c := assert_error hn <| by simp [hi]
  simp only [debugTraceMethod, bind_ok (get_apply c), hn, Bool.not_false, if_true, bind_error ha]

-- A method name is traced, or there is no call memory to trace it in.
theorem debugTraceMethod_cases :
    ((c.ndebug = false → c.info.isSome) ∧ debugTraceMethod name c = .ok () (c.traced name)) ∨
    ((c.ndebug = false ∧ c.info = none) ∧ debugTraceMethod name c = .error .assertFailed c) := by
  by_cases hi : c.ndebug = false → c.info.isSome
  case pos => exact .inl ⟨hi, debugTraceMethod_ok hi⟩
  case neg =>
    simp only [Classical.not_imp, Bool.not_eq_true, Option.isSome_eq_false_iff,
      Option.isNone_iff_eq_none] at hi
    exact .inr ⟨hi, debugTraceMethod_error hi.1 hi.2⟩

theorem within_assert : Within R (assert b) :=
  .bind .get fun _ => .ite .throw .pure

theorem within_value : Within R value := by
  refine .bind .get fun c => ?_
  cases c.info
  case none => exact .throw
  case some => exact .pure

-- A read does not even change the trace.
theorem within_callMemRead : Within R (callMemRead offset type) :=
  .bind (.bind (.bind .get fun _ => within_assert) fun _ => .bind within_value fun _ =>
    .bind within_assert fun _ => .bind within_assert fun _ => .pure) fun _ =>
    .bind within_value fun _ => .pure

theorem within_debugTraceMethod : Within (Keeps untraced) (debugTraceMethod name) := by
  refine .bind .get fun _ => .ite (.bind (.bind .get fun _ => within_assert) fun _ => ?_) .pure
  intro c
  cases hi : c.info
  case none =>
    rw [bind_error (value_error hi)]
    rfl
  case some =>
    rw [bind_ok (value_ok hi), setValue, modify_apply]
    simp [Keeps, untraced, hi]

end CallMem
end Ecsact
