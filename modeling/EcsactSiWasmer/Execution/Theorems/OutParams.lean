import EcsactSiWasmer.Execution.Theorems.Sandbox

open EStateM Ecsact.World Ecsact.CallMem

namespace Ecsact

-- The end of a callback which finds room for one result reports success.
def Succeeds (x : CallbackM (Option Trap)) : Prop :=
  ∀ w w', w.results.length = 1 → x w = .ok none w' → w'.results = [some (.i32 0)]

-- The end of a callback which finds room for one result reports success or leaves memory alone.
def Reports (x : CallbackM (Option Trap)) : Prop :=
  ∀ w w' errno, w.results.length = 1 → x w = .ok none w' → w'.results = [some (.i32 errno)] →
    errno ≠ 0 → w'.memories = w.memories

section

variable {α γ : Type} {p : CallMem → γ} {x : CallbackM α} {f : α → CallbackM (Option Trap)}

theorem setErrno_eq_ok {errno : BitVec 32} {w w' : World} (hl : w.results.length = 1)
    (h : (setErrno errno >>= fun _ => pure none) w = .ok (none : Option Trap) w') :
    w'.results = [some (.i32 errno)] ∧ w'.memories = w.memories := by
  rw [setErrno, bind_ok (setResult_ok (by omega))] at h
  cases h
  obtain ⟨_, hr⟩ := List.length_eq_one_iff.mp hl
  simp [hr]

theorem Succeeds.setErrno : Succeeds (setErrno 0 >>= fun _ => pure none) :=
  fun _ _ hl h => (setErrno_eq_ok hl h).1

theorem Succeeds.bind (hx : Within (Keeps World.results) x) (hf : ∀ a, Succeeds (f a)) :
    Succeeds (x >>= f) := by
  intro w w' hl h
  have ⟨a, w₁, h₁, h₂⟩ := bind_eq_ok.mp h
  have hr : w₁.results = w.results := hx.of_ok h₁
  exact hf a w₁ w' (hr ▸ hl) h₂

theorem Succeeds.reports {x : CallbackM (Option Trap)} (h : Succeeds x) : Reports x := by
  intro w w' errno hl hx hr he
  rw [h w w' hl hx] at hr
  cases hr
  exact absurd rfl he

theorem Reports.setErrno {errno : BitVec 32} : Reports (setErrno errno >>= fun _ => pure none) :=
  fun _ _ _ hl h _ _ => (setErrno_eq_ok hl h).2

theorem Reports.bind (hx : Within (Keeps World.results) x) (hm : Within (Keeps World.memories) x)
    (hf : ∀ a, Reports (f a)) : Reports (x >>= f) := by
  intro w w' errno hl h hr he
  have ⟨a, w₁, h₁, h₂⟩ := bind_eq_ok.mp h
  have hk : w₁.results = w.results := hx.of_ok h₁
  exact (hf a w₁ w' errno (hk ▸ hl) h₂ hr he).trans <| hm.of_ok h₁

theorem Reports.ite {c : Prop} [Decidable c] {x y : CallbackM (Option Trap)} (hx : Reports x)
    (hy : Reports y) : Reports (if c then x else y) := by
  split <;> assumption

theorem Reports.withMemory {name : String} {f : MemPtr → CallbackM (Option Trap)}
    (hf : ∀ mem, Reports (f mem)) : Reports (withMemory name f) := by
  have hk {α : Type} (x : CallMemM α) : Within (Keeps World.memories) (onCallMem x) := fun w => by
    simp only [onCallMem, EStateM.zoom]
    split <;> rfl
  exact .bind Quiet.debugTraceMethod.results (hk _) fun _ =>
    .bind (Quiet.callMemory (p := id)).results (hk _) hf

end

section

variable {fd a b c : BitVec 32}

theorem fdWrite_reports : Reports (ecsactSiWasiFdWrite [.i32 fd, .i32 a, .i32 b, .i32 c]) := by
  rw [fdWrite_eq]
  refine .withMemory fun mem => .ite (Succeeds.reports ?_) .setErrno
  exact .bind (Quiet.writeLoop (p := id)).results fun _ =>
    .bind (Quiet.storeWord (p := id)).results fun _ => .setErrno

theorem fdRead_reports : Reports (ecsactSiWasiFdRead [.i32 fd, .i32 a, .i32 b, .i32 c]) := by
  rw [fdRead_eq]
  refine .withMemory fun mem => Succeeds.reports ?_
  have ho : Avoids Fault.IsBadAccess (Files.ensureOpen fd) :=
    Files.avoids_ensureOpen Fault.foreign_isBadAccess
  exact .bind (Quiet.onFiles (p := id) ho).results fun _ =>
    .bind (Quiet.readLoop (p := id)).results fun _ =>
    .bind (Quiet.storeWord (p := id)).results fun _ => .setErrno

theorem environSizesGet_reports : Reports (ecsactSiWasiEnvironSizesGet [.i32 a, .i32 b]) := by
  rw [environSizesGet_eq]
  refine .withMemory fun mem => Succeeds.reports ?_
  exact .bind (Quiet.storeWord (p := id)).results fun _ =>
    .bind (Quiet.storeWord (p := id)).results fun _ => .setErrno

theorem environGet_reports : Reports (ecsactSiWasiEnvironGet [.i32 a, .i32 b]) := by
  rw [environGet_eq]
  refine .withMemory fun mem => Succeeds.reports ?_
  exact .bind (Quiet.storeBytes (p := id)).results fun _ =>
    .bind (Quiet.storeBytes (p := id)).results fun _ => .setErrno

end

namespace ImportCall

variable {call : ImportCall} {w : World}

theorem outImports_cases {name : String} {motive : Prop} (h : name ∈ outImports)
    (fdWrite : name = "fd_write" → motive) (fdRead : name = "fd_read" → motive)
    (environSizesGet : name = "environ_sizes_get" → motive)
    (environGet : name = "environ_get" → motive)
    (fdFdstatGet : name = "fd_fdstat_get" → motive) : motive := by
  simp only [outImports, List.mem_cons, List.not_mem_nil, or_false] at h
  exact h.elim fdWrite fun h => h.elim fdRead fun h => h.elim environSizesGet fun h =>
    h.elim environGet fdFdstatGet

theorem reports {w' : World} {errno : BitVec 32} (hn : call.name ∈ outImports)
    (hs : call.name ≠ "fd_fdstat_get") (hr : call.run w = .ok none w')
    (he : w'.results = [some (.i32 errno)]) (hz : errno ≠ 0) :
    w'.memories = (call.enter w).memories := by
  apply outImports_cases hn
  case fdWrite =>
    intro hn
    rw [call.run_eq hn rfl (k := 4) rfl w] at hr
    exact fdWrite_reports _ _ _ (call.enter_length hn rfl w) hr he hz
  case fdRead =>
    intro hn
    rw [call.run_eq hn rfl (k := 4) rfl w] at hr
    exact fdRead_reports _ _ _ (call.enter_length hn rfl w) hr he hz
  case environSizesGet =>
    intro hn
    rw [call.run_eq hn rfl (k := 2) rfl w] at hr
    exact environSizesGet_reports _ _ _ (call.enter_length hn rfl w) hr he hz
  case environGet =>
    intro hn
    rw [call.run_eq hn rfl (k := 2) rfl w] at hr
    exact environGet_reports _ _ _ (call.enter_length hn rfl w) hr he hz
  case fdFdstatGet => exact fun hn => absurd hn hs

-- The environment is written as two strings without a character.
theorem environGet_bytes {mem : MemPtr} (hn : call.name = "environ_get") (hf : call.Finds w mem) :
    ((call.run w).state.memories mem).bytes =
      (((call.enter w).memories mem).bytes.write (call.val 0).toInt [0]).write
        (call.val 1).toInt [0] := by
  have hm : callMemRead 0 .memory w.callMem = .ok mem w.callMem := by
    rw [Finds, hn] at hf
    exact hf
  let w₀ := (call.enter w).traced "environ_get"
  let w₁ := (w₀.stored mem (call.val 0).toInt [0]).accessed ⟨mem, (call.val 0).toInt, [0], true⟩
  let w₂ := (w₁.stored mem (call.val 1).toInt [0]).accessed ⟨mem, (call.val 1).toInt, [0], true⟩
  have h₁ : storeBytes (wasmMemoryCast mem (call.val 0)) [0] w₀ = .ok () w₁ := rfl
  have h₂ : storeBytes (wasmMemoryCast mem (call.val 1)) [0] w₁ = .ok () w₂ := rfl
  have hl : 0 < w₂.results.length := (call.enter_length hn rfl w).symm ▸ Nat.one_pos
  have hr := (call.run_eq hn rfl (k := 2) rfl w).trans <|
    (congrFun environGet_eq _).trans <| withMemory_ok (w := call.enter w) hm
  rw [hr, bind_ok h₁, bind_ok h₂, setErrno, bind_ok (setResult_ok hl)]
  simp [w₂, w₁, w₀, stored, World.accessed, World.traced, pure_apply]

theorem environGet_ends {mem : MemPtr} (hn : call.name = "environ_get") (hf : call.Finds w mem)
    {i : Nat} (hi : i < 2) (hv : (call.val i).toNat < 2 ^ 31) :
    ((call.run w).state.memories mem).bytes (call.val i).toNat = 0 := by
  have hw {m : ByteStore} {a : Int} : m.write a [0] a = 0 := by simp [ByteStore.write]
  rw [environGet_bytes hn hf, ← toInt_eq_toNat hv]
  rcases Nat.lt_succ_iff_lt_or_eq.mp hi with hi | rfl
  · cases Nat.lt_one_iff.mp hi
    by_cases he : (call.val 0).toInt = (call.val 1).toInt
    case pos => rw [he, hw]
    case neg =>
      -- The second string starts elsewhere.
      have ho : (call.val 0).toInt < (call.val 1).toInt ∨
          (call.val 1).toInt + ([0] : List Byte).length ≤ (call.val 0).toInt := by
        simp
        omega
      rw [ByteStore.write_outside ho, hw]
  · exact hw

theorem Names.eq_zero {log : List Access} {v : BitVec 32} {k n : Nat}
    (h : call.Names log true v k n) : k = 0 := by
  cases h
  case out      => rfl
  case entry hw => cases hw
  case buffer   => rfl

theorem lookup_outImports : ∀ name ∈ outImports, nativeApi.lookup name = none := by
  simp only [outImports, List.forall_mem_cons]
  exact ⟨rfl, rfl, rfl, rfl, rfl, nofun⟩

-- A call for which no named range passes the end of the address space.
theorem frames (hn : call.name ∈ outImports)
    (hs : ∀ write v k n, call.Names (call.run w).state.accesses write v k n →
      v.toNat + k + n ≤ 2 ^ 32) : call.Frames w (call.run w).state where
  errno _ hf hr he hz := reports hn hf hr he hz
  ends hn mem hf i hi hv := environGet_ends hn hf hi hv
  changes mem x hx hc := by
    have ⟨log, made, h⟩ := call.confined w
    have hl : (call.run w).state.accesses = log := h.accesses
    have ⟨a, ha, hc⟩ := h.changes (h.native <| lookup_outImports _ hn) mem x hc
    have ⟨hf, v, k, n, hv, hd, ho⟩ := h.reaches a ha
    have ⟨hw, hm, hg, hu⟩ := hc
    rw [hw] at hv
    cases hv.eq_zero
    -- An address which the conversion makes negative does not reach up to the guest's bytes.
    have hi : v.toInt = v.toNat := by
      apply toInt_eq_toNat
      by_contra hv'
      have hb := hs _ _ _ _ hv
      rw [toInt_eq_sub (by omega)] at ho
      omega
    exact ⟨hm ▸ hf, a, hl ▸ ha, hc, v, n, hv, by omega, hd⟩

theorem environGet_mem : ("environ_get", ⟨wasmFunctypeNew21 .i32 .i32 .i32, ecsactSiWasiEnvironGet⟩) ∈
    importTables := by
  simp [importTables, guestWasiModuleImports]

theorem fdFdstatGet_mem : ("fd_fdstat_get", ⟨wasmFunctypeNew21 .i32 .i32 .i32,
    ecsactSiWasiFdFdstatGet⟩) ∈ importTables := by
  simp [importTables, guestWasiModuleImports]

def environGet (environ environBuf : BitVec 32) : ImportCall where
  name  := "environ_get"
  func  := ⟨wasmFunctypeNew21 .i32 .i32 .i32, ecsactSiWasiEnvironGet⟩
  mem   := environGet_mem
  args  := [.i32 environ, .i32 environBuf]
  typed := typed_pair environ environBuf

def fdFdstatGet (fd retptr : BitVec 32) : ImportCall where
  name  := "fd_fdstat_get"
  func  := ⟨wasmFunctypeNew21 .i32 .i32 .i32, ecsactSiWasiFdFdstatGet⟩
  mem   := fdFdstatGet_mem
  args  := [.i32 fd, .i32 retptr]
  typed := typed_pair fd retptr

theorem environGet_frames :
    (environGet 96 100).Frames (systemWorld true)
      ((environGet 96 100).run (systemWorld true)).state := by
  refine frames (by simp [outImports, environGet]) fun write v k n h => ?_
  have ho : (environGet 96 100).ranges.out = [(0, 1), (1, 1)] := rfl
  have ha : (environGet 96 100).ranges.array = none := rfl
  cases h
  case out i h =>
    simp only [ho, List.mem_cons, Prod.mk.injEq, List.not_mem_nil, or_false] at h
    obtain ⟨rfl, rfl⟩ | ⟨rfl, rfl⟩ := h <;> decide
  case entry h _ _    => cases ha.symm.trans h
  case buffer h _ _ _ => cases ha.symm.trans h

-- A guest which keeps a value at 100.
def keepingWorld : World :=
  (systemWorld true).stored 1 100 [7]

-- It is written over by a string's end, by the higher half of a size, and by the status of a file
-- descriptor which has none.
theorem keepingWorld_changes : (keepingWorld.memories 1).bytes 100 = 7 ∧
    (∃ w', (environGet 100 96).run keepingWorld = .ok none w' ∧ (w'.memories 1).bytes 100 = 0) ∧
    (∃ w', (environSizesGet 96 96).run keepingWorld = .ok none w' ∧
      (w'.memories 1).bytes 100 = 0) ∧
    ∃ w', (fdFdstatGet 0 96).run keepingWorld = .ok none w' ∧ w'.results = [some (.i32 1)] ∧
      (w'.memories 1).bytes 100 = 0 :=
  ⟨by decide, ⟨_, rfl, by decide⟩, ⟨_, rfl, by decide⟩, _, rfl, rfl, by decide⟩

end ImportCall
end Ecsact
