import EcsactSiWasmer.Execution.References
import EcsactSiWasmer.Execution.Theorems.Hosting

open EStateM Ecsact.World Ecsact.CallMem SharedPtr

namespace Ecsact.Counted

section

variable {α β γ δ : Type} {s s' : Counted} {x : CountedM α} {y : ProgramM β}

-- `x` does to the program what `y` does.
def Projects (f : α → β) (x : CountedM α) (y : ProgramM β) (s : Counted) : Prop :=
  y s.program = project f (x s)

namespace Projects

variable {f : α → β} {g : γ → δ} {k : α → CountedM γ} {l : β → ProgramM δ}

theorem pure {a : α} : Projects f (pure a) (pure (f a)) s :=
  rfl

theorem throw {e : Fault} : Projects f (throw e) (throw e) s :=
  rfl

theorem lift {y : ProgramM α} : Projects id (lift y) y s := by
  cases h : y s.program <;> simp [Projects, Counted.lift, EStateM.zoom, project, h]

theorem bind (hx : Projects f x y s) (hk : ∀ a s', Projects g (k a) (l (f a)) s') :
    Projects g (x >>= k) (y >>= l) s := by
  rw [Projects] at hx ⊢
  cases h : x s
  case ok a s'    => rw [h] at hx; rw [bind_ok hx, bind_ok h]; exact hk a s'
  case error e s' => rw [h] at hx; rw [bind_error hx, bind_error h]; rfl

theorem get_bind {k : Counted → CountedM γ} {l : Program → ProgramM δ}
    (hk : Projects g (k s) (l s.program) s) : Projects g (get >>= k) (get >>= l) s :=
  hk

theorem ite {c : Prop} [Decidable c] {x' : CountedM α} {y' : ProgramM β} (h : Projects f x y s)
    (h' : Projects f x' y' s) : Projects f (if c then x else x') (if c then y else y') s := by
  split <;> assumption

-- What is only counted does not show.
theorem modify_bind {h : Counted → Counted} {k : Unit → CountedM γ} {y : ProgramM δ}
    (hp : ∀ s, (h s).program = s.program) (hk : ∀ s, Projects g (k ()) y s) :
    Projects g (modify h >>= k) y s := by
  have hs := hk (h s)
  rw [Projects, hp] at hs
  exact hs

theorem wasmNew_bind {c : Nat → EngineObject} {k : Nat → CountedM γ} {y : ProgramM δ}
    (hk : ∀ n s, Projects g (k n) y s) : Projects g (wasmNew c >>= k) y s := by
  exact hk s.made.length { s with made := s.made ++ [c s.made.length] }

theorem destroy_bind {ptrs : MinstPtrs} {k : Unit → CountedM γ} {y : ProgramM δ}
    (hk : ∀ s, Projects g (k ()) y s) : Projects g (destroy ptrs >>= k) y s :=
  modify_bind (fun _ => rfl) hk

end Projects

theorem projects_create {thread : ThreadId} {build : Build} :
    Projects (Except.map Prod.fst) (create thread build)
      (Program.onThread thread (Minst.create build)) s := by
  suffices h : Projects (Except.map Prod.fst) (create thread build)
      (Program.onThread thread (Minst.create build) >>= pure) s by
    rwa [bind_pure] at h
  refine .wasmNew_bind fun n s => Projects.lift.bind fun r s => ?_
  cases r
  case ok => exact .wasmNew_bind fun _ _ => .wasmNew_bind fun _ _ => .destroy_bind fun _ => .pure
  case error err =>
    by_cases hc : err.code = .compileFail
    case pos =>
      simp only [hc, if_true, pure_bind]
      exact .destroy_bind fun _ => .pure
    case neg =>
      simp only [hc, if_false, map_eq_pure_bind, bind_assoc, pure_bind]
      exact .wasmNew_bind fun _ _ => .destroy_bind fun _ => .pure

theorem projects_loadMinst {thread : ThreadId} {systems : List (SystemId × String)}
    {build : Build} : Projects id (loadMinst thread systems build)
      (Program.loadMinst thread systems build) s := by
  refine projects_create.bind fun r s => ?_
  cases r
  case error err =>
    exact Projects.lift.bind fun _ _ => Projects.lift.bind fun _ _ => .pure
  case ok r =>
    obtain ⟨inst, result⟩ := r
    simp only [Except.map]
    cases getSystemImplExports inst systems fun _ => none
    case error err => exact .destroy_bind fun _ => .pure
    case ok exports =>
      refine Projects.lift.bind fun _ _ => ?_
      cases inst.exports.find? (·.kind = .memory)
      case none => exact .throw
      case some memory =>
        refine Projects.lift.bind fun _ _ => Projects.lift.bind fun trap _ =>
          Projects.lift.bind fun _ _ => ?_
        cases trap
        case some => exact .destroy_bind fun _ => .pure
        case none =>
          simp only [makeShared, bind_assoc]
          exact .modify_bind (fun _ => rfl) fun _ => Projects.lift.bind fun _ _ =>
            .destroy_bind fun _ => .pure

theorem projects_loadLoop {thread : ThreadId} {systems : List (SystemId × String)}
    {builds : Nat → Build} {n i : Nat} : Projects id (loadLoop thread systems builds n i)
      (Program.loadLoop thread systems builds n i) s := by
  induction n generalizing s i
  case zero => exact .pure
  case succ n hi =>
    refine projects_loadMinst.bind fun r s => ?_
    cases r
    case some => exact .pure
    case none => exact hi

@[simp]
theorem releaseAll_program {ids : List Nat} : (s.releaseAll ids).program = s.program := by
  induction ids generalizing s
  case nil        => rfl
  case cons id ids hi => exact hi

theorem projects_modify {f : Counted → Counted} {g : Program → Program}
    (h : ∀ s, (f s).program = g s.program) : Projects id (modify f) (modify g) s :=
  congrArg (EStateM.Result.ok ()) (h s).symm

theorem projects_clear : Projects id clear (modify ({ · with allMinsts := [] })) s :=
  projects_modify fun s => by simp

theorem projects_load {thread : ThreadId} {systems : List (SystemId × String)}
    {builds : Nat → Build} : Projects id (ecsactSiWasmLoad thread systems builds)
      (Program.ecsactSiWasmLoad thread systems builds) s := by
  refine .get_bind <| .ite .pure <| projects_clear.bind fun _ _ =>
    projects_loadLoop.bind fun r _ => ?_
  cases r
  case some => exact .pure
  case none => exact Projects.lift.bind fun _ _ => .pure

theorem projects_reset : Projects id ecsactSiWasmReset Program.ecsactSiWasmReset s := by
  have h : Program.ecsactSiWasmReset = modify ({ · with allMinsts := [] }) >>= fun _ =>
      modify ({ · with nextAvailableIndex := 0 }) := rfl
  exact h ▸ projects_clear.bind fun _ _ => Projects.lift

-- The two ways to find out whether an instance is still there.
def Locks (s : Counted) (thread : ThreadId) : Prop :=
  ∀ m, s.program.threadMinst thread = some m → s.blocks.expired m.id = !s.program.holds m

theorem lock_apply {thread : ThreadId} : lock thread s =
    match s.program.threadMinst thread with
    | none   => .ok none s
    | some m => if s.blocks.expired m.id then .ok none s
        else .ok (some m) { s with blocks := s.blocks.copy m.id } := by
  rw [lock, bind_ok (get_apply _)]
  cases s.program.threadMinst thread
  case none => rfl
  case some m =>
    simp only [bind_ok (get_apply _)]
    split <;> rfl

theorem lock_eq {thread : ThreadId} (h : s.Locks thread) : ∃ s', s'.program = s.program ∧
    lock thread s = .ok (s.program.lock thread) s' := by
  rw [lock_apply]
  cases ht : s.program.threadMinst thread
  case none => exact ⟨s, rfl, by simp [Program.lock, ht]⟩
  case some m =>
    have hh := h m ht
    cases hp : s.program.holds m
    case false => exact ⟨s, rfl, by simp [Program.lock, ht, hh, hp, Option.filter]⟩
    case true =>
      refine ⟨{ s with blocks := s.blocks.copy m.id }, rfl, ?_⟩
      simp [Program.lock, ht, hh, hp, Option.filter]

theorem projects_ensureMinst {thread : ThreadId} (h : s.Locks thread) :
    Projects id (ensureMinst thread) (Program.ensureMinst thread) s := by
  have ⟨s', hp, hl⟩ := lock_eq h
  rw [Projects, ensureMinst, bind_ok hl, Program.ensureMinst, bind_ok (get_apply _), ← hp]
  cases s'.program.lock thread
  case some minst => rfl
  case none =>
    change Projects id _ _ s'
    refine Projects.lift.bind fun _ s => .get_bind ?_
    refine .ite (Projects.bind (f := id) .throw fun _ _ => ?_) ?_
    all_goals
      cases s.program.allMinsts[s.program.nextAvailableIndex.toNat % s.program.allMinsts.length]?
      case none => exact .throw
      case some minst =>
        exact .modify_bind (fun _ => rfl) fun _ => Projects.lift.bind fun _ _ => .pure

theorem projects_enterSystemImpl {thread : ThreadId} {ctx : CtxPtr} (h : s.Locks thread) :
    Projects id (enterSystemImpl thread ctx) (Program.enterSystemImpl thread ctx) s := by
  refine (projects_ensureMinst h).bind fun minst _ => Projects.lift.bind fun systemId _ =>
    Projects.lift.bind fun _ _ => ?_
  simp only [id]
  cases minst.sysImplExports systemId
  case none => exact .throw
  case some => exact Projects.lift.bind fun _ _ => Projects.lift.bind fun _ _ => .pure

theorem projects_leaveSystemImpl {thread : ThreadId} :
    Projects id (leaveSystemImpl thread) (Program.leaveSystemImpl thread) s :=
  Projects.lift.bind fun _ _ => projects_modify fun s => by simp

-- The program's step is that of the counted program without the counts.
theorem projects_run {event : Program.Event} (h : ∀ thread, s.Locks thread) :
    Projects id (Counted.run event) event.run s := by
  cases event
  case load           => exact projects_load.bind fun _ _ => .pure
  case reset          => exact projects_reset
  case enter thread _ => exact (projects_enterSystemImpl <| h thread).bind fun _ _ => .pure
  case leave          => exact projects_leaveSystemImpl
  all_goals exact Projects.lift

end

-- The objects of the instances which have owners.
def held (s : Counted) (owners : List Nat) : List EngineObject :=
  ((List.range s.program.created).filter (· ∈ owners)).flatMap fun id => (s.ptrs id).destroy

-- Each object that the engine has made is deleted, in use by a load, or kept by an instance.
structure Accounted (s : Counted) (owners : List Nat) (pending : List EngineObject) : Prop where
  owned  : Owned s.blocks (List.range s.program.created) owners
  nodup  : s.made.Nodup
  fresh  : ∀ n, s.made.length ≤ n → .store n ∉ s.made ∧ .module n ∉ s.made ∧ .inst n ∉ s.made
  perm   : s.made.Perm (s.deleted ++ (pending ++ s.held owners))
  whole  : ∀ id < s.program.created, (s.ptrs id).Whole

namespace Accounted

variable {α : Type} {s s' : Counted} {owners owners' : List Nat}
  {pending pending' : List EngineObject}

theorem congr (h : s.Accounted owners pending) (ho : owners.Perm owners')
    (hp : pending.Perm pending') : s.Accounted owners' pending' where
  owned := h.owned.perm ho
  nodup := h.nodup
  fresh := h.fresh
  perm  := by
    have hh : s.held owners = s.held owners' := by simp only [held, ho.mem_iff]
    exact h.perm.trans <| hh ▸ (hp.append_right _).append_left _
  whole := h.whole

-- The program may change, as long as it makes no instance.
theorem withProgram {p : Program} (h : s.Accounted owners pending)
    (hc : p.created = s.program.created) : { s with program := p }.Accounted owners pending :=
  ⟨hc ▸ h.owned, h.nodup, h.fresh, by simpa only [held, hc] using h.perm, hc ▸ h.whole⟩

theorem lift {x : ProgramM α} {a : α} (h : s.Accounted owners pending)
    (hx : Counted.lift x s = .ok a s') (hc : s'.program.created = s.program.created) :
    s'.Accounted owners pending := by
  obtain ⟨p, hp, rfl⟩ := zoom_eq_ok.mp hx
  exact h.withProgram hc

theorem wasmNew {f : Nat → EngineObject} {n : Nat} (h : s.Accounted owners pending)
    (hf : f = .store ∨ f = .module ∨ f = .inst) (hx : Counted.wasmNew f s = .ok n s') :
    s'.Accounted owners (f n :: pending) ∧ s'.program = s.program := by
  cases hx
  have hn : f s.made.length ∉ s.made := by
    have ⟨h₁, h₂, h₃⟩ := h.fresh _ le_rfl
    rcases hf with rfl | rfl | rfl <;> assumption
  refine ⟨⟨h.owned, ?nodup, fun n hn => ?fresh, ?perm, h.whole⟩, rfl⟩
  case nodup =>
    exact h.nodup.append (List.nodup_singleton _) <| by simpa using hn
  case fresh =>
    simp only [List.length_append, List.length_singleton] at hn
    have ⟨h₁, h₂, h₃⟩ := h.fresh n <| by omega
    have hne : n ≠ s.made.length := by omega
    rcases hf with rfl | rfl | rfl <;> simp [h₁, h₂, h₃, hne]
  case perm =>
    change (s.made ++ [f s.made.length]).Perm
      (s.deleted ++ (f s.made.length :: pending ++ s.held owners))
    refine (List.perm_append_comm.trans (h.perm.cons _)).trans ?_
    simpa using List.perm_middle.symm

theorem destroy {u : Unit} (ptrs : MinstPtrs) (pending : List EngineObject)
    (h : s.Accounted owners (ptrs.destroy ++ pending)) (hx : Counted.destroy ptrs s = .ok u s') :
    s'.Accounted owners pending ∧ s'.program = s.program := by
  cases hx
  refine ⟨⟨h.owned, h.nodup, h.fresh, ?_, h.whole⟩, rfl⟩
  change s.made.Perm (s.deleted ++ ptrs.destroy ++ (pending ++ s.held owners))
  simpa using h.perm

theorem held_of_mem {id : Nat} (hi : id ∈ owners) : s.held (id :: owners) = s.held owners := by
  simp only [held, List.mem_cons]
  refine congrArg (List.flatMap _) <| List.filter_congr fun k _ => ?_
  by_cases hk : k = id
  case pos => simp [hk, hi]
  case neg => simp [hk]

theorem copy {id : Nat} (h : s.Accounted owners pending) (hi : id ∈ owners) :
    { s with blocks := s.blocks.copy id }.Accounted (id :: owners) pending where
  owned := h.owned.copy hi
  nodup := h.nodup
  fresh := h.fresh
  perm  := (held_of_mem (s := s) hi).symm ▸ h.perm
  whole := h.whole

-- The objects of an instance whose last reference ends are those which it takes with it.
theorem held_cons {id : Nat} (hi : id ∉ owners) (hc : id < s.program.created) :
    (s.held (id :: owners)).Perm ((s.ptrs id).destroy ++ s.held owners) := by
  have hp : ((List.range s.program.created).filter (· ∈ id :: owners)).Perm
      (id :: (List.range s.program.created).filter (· ∈ owners)) := by
    refine (List.perm_ext_iff_of_nodup (List.nodup_range.filter _) ?_).mpr fun k => ?_
    · exact (List.nodup_range.filter _).cons <| by simp [hi]
    · by_cases hk : k = id
      case pos => simp [hk, hc]
      case neg => simp [hk]
  simpa [held] using hp.flatMap_right fun id => (s.ptrs id).destroy

theorem release {id : Nat} (h : s.Accounted (id :: owners) pending) :
    (s.release id).Accounted owners pending where
  owned := h.owned.release
  nodup := h.nodup
  fresh := h.fresh
  perm  := by
    have hk : s.blocks.count id = 1 ↔ id ∉ owners := by
      simp [h.owned.count, List.count_eq_zero]
    have hc : id < s.program.created := by simpa using h.owned.subset List.mem_cons_self
    change s.made.Perm ((s.deleted ++ if s.blocks.count id = 1 then (s.ptrs id).destroy else []) ++
      (pending ++ s.held owners))
    by_cases hi : id ∈ owners
    case pos => simpa [hk, hi, held_of_mem hi] using h.perm
    case neg =>
      rw [if_pos (hk.mpr hi), List.append_assoc]
      refine h.perm.trans <| .append_left _ ?_
      refine ((held_cons hi hc).append_left _).trans ?_
      rw [← List.append_assoc, ← List.append_assoc]
      exact List.perm_append_comm.append_right _
  whole := h.whole

theorem releaseAll {ids : List Nat} (h : s.Accounted (ids ++ owners) pending) :
    (s.releaseAll ids).Accounted owners pending := by
  induction ids generalizing s
  case nil        => exact h
  case cons id ids hi => exact hi h.release

theorem makeShared {inst : Minst} {exports : SystemId → Option MinstExport} {memory : MinstExport}
    {ptrs : MinstPtrs} {u : Unit} (h : s.Accounted owners (ptrs.destroy ++ pending))
    (hw : ptrs.Whole) (hx : Counted.makeShared inst exports memory ptrs s = .ok u s') :
    s'.Accounted (s.program.created :: owners) pending := by
  cases hx
  have hn : s.program.created ∉ owners := fun ho => by simpa using h.owned.subset ho
  refine ⟨?owned, h.nodup, h.fresh, ?perm, fun id hi => ?whole⟩
  case owned =>
    have ho := h.owned.make (a := s.program.created) <| by simp
    rwa [← List.range_succ] at ho
  case perm =>
    let s' : Counted := { s with
      program := { s.program with created := s.program.created + 1 }
      ptrs    := Function.update s.ptrs s.program.created ptrs
    }
    have hh : s'.held owners = s.held owners := by
      have hf : (List.range s.program.created).filter (· ∈ owners) =
          (List.range (s.program.created + 1)).filter (· ∈ owners) := by
        simp [List.range_succ, List.filter_append, hn]
      simp only [held, s', ← hf]
      refine List.flatMap_congr fun k hk => ?_
      have hk : k < s.program.created := List.mem_range.mp (List.mem_of_mem_filter hk)
      rw [Function.update_of_ne hk.ne]
    have hc := held_cons (s := s') hn (Nat.lt_succ_self _)
    simp only [hh, s', Function.update_self] at hc
    refine h.perm.trans <| .append_left _ ?_
    refine List.Perm.trans ?_ (hc.symm.append_left pending)
    rw [← List.append_assoc]
    exact List.perm_append_comm.append_right _
  case whole =>
    by_cases hk : id = s.program.created
    case pos => simpa [hk] using hw
    case neg =>
      replace hi : id < s.program.created + 1 := hi
      simpa [hk] using h.whole id <| by omega

variable {thread : ThreadId} {systems : List (SystemId × String)} {build : Build}
  {builds : Nat → Build}

theorem touched_created {p p' : Program} (h : Program.Touched p p') : p'.created = p.created := by
  obtain ⟨_, _, _, rfl⟩ := h
  rfl

-- The instance which is made comes with all of its objects, and an error with none.
theorem create {r : Except MinstError (Minst × MinstPtrs)} (h : s.Accounted owners [])
    (hx : create thread build s = .ok r s') :
    Program.Touched s.program s'.program ∧ match r with
      | .error _       => s'.Accounted owners []
      | .ok (_, ptrs) => s'.Accounted owners ptrs.destroy ∧ ptrs.Whole := by
  have ⟨n, s₁, h₁, hx⟩ := bind_eq_ok.mp hx
  have ⟨ha₁, hp₁⟩ := h.wasmNew (.inl rfl) h₁
  have ⟨r₂, s₂, h₂, hx⟩ := bind_eq_ok.mp hx
  have ht : Program.Touched s.program s₂.program := by
    obtain ⟨p, hp, rfl⟩ := zoom_eq_ok.mp h₂
    exact hp₁ ▸ Program.touched_onThread.of_ok hp
  have ha₂ := ha₁.lift h₂ <| (touched_created ht).trans <| congrArg Program.created hp₁.symm
  cases r₂
  case error err =>
    by_cases hc : err.code = .compileFail
    case pos =>
      simp only [hc, if_true, pure_bind] at hx
      have ⟨_, s₃, h₃, hx⟩ := bind_eq_ok.mp hx
      cases hx
      have ⟨ha₃, hp₃⟩ := destroy { store := some n } [] ha₂ h₃
      exact ⟨hp₃ ▸ ht, ha₃⟩
    case neg =>
      simp only [hc, if_false, map_eq_pure_bind, bind_assoc, pure_bind] at hx
      have ⟨m, s₃, h₃, hx⟩ := bind_eq_ok.mp hx
      have ⟨ha₃, hp₃⟩ := ha₂.wasmNew (.inr <| .inl rfl) h₃
      have ⟨_, s₄, h₄, hx⟩ := bind_eq_ok.mp hx
      cases hx
      have ⟨ha₄, hp₄⟩ :=
        destroy { store := some n, module := some m } [] ha₃ h₄
      exact ⟨hp₄ ▸ hp₃ ▸ ht, ha₄⟩
  case ok inst =>
    have ⟨m, s₃, h₃, hx⟩ := bind_eq_ok.mp hx
    have ⟨ha₃, hp₃⟩ := ha₂.wasmNew (.inr <| .inl rfl) h₃
    have ⟨i, s₄, h₄, hx⟩ := bind_eq_ok.mp hx
    have ⟨ha₄, hp₄⟩ := ha₃.wasmNew (.inr <| .inr rfl) h₄
    have ⟨_, s₅, h₅, hx⟩ := bind_eq_ok.mp hx
    cases hx
    have ⟨ha₅, hp₅⟩ := destroy {} _ ha₄ h₅
    exact ⟨hp₅ ▸ hp₄ ▸ hp₃ ▸ ht, ha₅, ⟨_, _, _, rfl⟩⟩

theorem lift_touched {x : ProgramM α} {a : α} (h : s.Accounted owners pending)
    (ht : Within Program.Touched x) (hx : Counted.lift x s = .ok a s') :
    s'.Accounted owners pending ∧ Program.Touched s.program s'.program := by
  have hp : Program.Touched s.program s'.program := by
    obtain ⟨p, hp, rfl⟩ := zoom_eq_ok.mp hx
    exact ht.of_ok hp
  exact ⟨h.lift hx <| touched_created hp, hp⟩

theorem touched_references (h : Program.Touched s.program s'.program) :
    s'.references = s.references := by
  rw [references, references, h.allMinsts, h.running]

theorem makeShared_references {inst : Minst} {exports : SystemId → Option MinstExport}
    {memory : MinstExport} {ptrs : MinstPtrs} {u : Unit}
    (hx : Counted.makeShared inst exports memory ptrs s = .ok u s') :
    (s.program.created :: s.references).Perm s'.references := by
  cases hx
  let m : SystemImpls := ⟨s.program.created, inst, exports, memory⟩
  change (m.id :: (s.program.allMinsts.map (·.id) ++ s.program.running.map (·.2.id))).Perm
    ((s.program.allMinsts ++ [m]).map (·.id) ++ s.program.running.map (·.2.id))
  simpa using List.perm_middle.symm

theorem loadMinst {r : Option SiError} (h : s.Accounted s.references [])
    (hx : loadMinst thread systems build s = .ok r s') : s'.Accounted s'.references [] := by
  have ⟨r₁, s₁, h₁, hx⟩ := bind_eq_ok.mp hx
  have ⟨ht₁, ha₁⟩ := h.create h₁
  cases r₁
  case error err =>
    have ⟨_, s₂, h₂, hx⟩ := bind_eq_ok.mp hx
    have ⟨ha₂, ht₂⟩ := ha₁.lift_touched (.modify fun p => ⟨p.world, p.callMemInfo, _, rfl⟩) h₂
    have ⟨_, s₃, h₃, hx⟩ := bind_eq_ok.mp hx
    have ⟨ha₃, ht₃⟩ := ha₂.lift_touched Program.touched_createError h₃
    cases hx
    have ht := trans_of Program.Touched ht₁ <| trans_of Program.Touched ht₂ ht₃
    exact touched_references ht ▸ ha₃
  case ok e =>
    obtain ⟨inst, ptrs⟩ := e
    obtain ⟨ha₁, hw⟩ := ha₁
    simp only at hx
    replace ha₁ : s₁.Accounted s.references (ptrs.destroy ++ []) := by simpa using ha₁
    cases he : getSystemImplExports inst systems fun _ => none
    case error err =>
      simp only [he] at hx
      have ⟨_, s₂, h₂, hx⟩ := bind_eq_ok.mp hx
      cases hx
      have ⟨ha₂, hp₂⟩ := destroy ptrs _ ha₁ h₂
      exact touched_references (hp₂ ▸ ht₁) ▸ ha₂
    case ok exports =>
      simp only [he] at hx
      have ⟨_, s₂, h₂, hx⟩ := bind_eq_ok.mp hx
      have ⟨ha₂, ht₂⟩ := ha₁.lift_touched Program.touched_assert h₂
      cases hf : inst.exports.find? (·.kind = .memory)
      case none => rw [hf] at hx; cases hx
      case some memory =>
        simp only [hf] at hx
        have ⟨_, s₃, h₃, hx⟩ := bind_eq_ok.mp hx
        have ⟨ha₃, ht₃⟩ := ha₂.lift_touched Program.touched_onThread h₃
        have ⟨trap, s₄, h₄, hx⟩ := bind_eq_ok.mp hx
        have ⟨ha₄, ht₄⟩ := ha₃.lift_touched Program.touched_onThread h₄
        have ⟨_, s₅, h₅, hx⟩ := bind_eq_ok.mp hx
        have ⟨ha₅, ht₅⟩ := ha₄.lift_touched Program.touched_onThread h₅
        have ht : Program.Touched s.program s₅.program :=
          trans_of Program.Touched ht₁ <| trans_of Program.Touched ht₂ <|
            trans_of Program.Touched ht₃ <| trans_of Program.Touched ht₄ ht₅
        cases trap
        case some =>
          have ⟨_, s₆, h₆, hx⟩ := bind_eq_ok.mp hx
          cases hx
          have ⟨ha₆, hp₆⟩ := destroy ptrs _ ha₅ h₆
          exact touched_references (hp₆ ▸ ht) ▸ ha₆
        case none =>
          have ⟨_, s₆, h₆, hx⟩ := bind_eq_ok.mp hx
          have ha₆ := ha₅.makeShared hw h₆
          have ⟨_, s₇, h₇, hx⟩ := bind_eq_ok.mp hx
          cases hx
          have ⟨ha₇, hp₇⟩ := destroy {} _ ha₆ h₇
          have hr : s'.references = s₆.references := by rw [references, hp₇, references]
          rw [← touched_references ht] at ha₇
          exact hr ▸ ha₇.congr (makeShared_references h₆) .rfl

theorem loadLoop {n i : Nat} {r : Option SiError} (h : s.Accounted s.references [])
    (hx : loadLoop thread systems builds n i s = .ok r s') : s'.Accounted s'.references [] := by
  induction n generalizing s i
  case zero =>
    cases hx
    exact h
  case succ n hi =>
    have ⟨r₁, s₁, h₁, hx⟩ := bind_eq_ok.mp hx
    have ha₁ := h.loadMinst h₁
    cases r₁
    case some =>
      cases hx
      exact ha₁
    case none => exact hi ha₁ hx

theorem clear {u : Unit} (h : s.Accounted s.references []) (hx : clear s = .ok u s') :
    s'.Accounted s'.references [] := by
  cases hx
  let s₁ := s.releaseAll (s.program.allMinsts.map (·.id))
  have hp : s₁.program = s.program := releaseAll_program
  have ha : s₁.Accounted (s.program.running.map (·.2.id)) [] := h.releaseAll
  rw [← hp] at ha
  exact ha.withProgram rfl

theorem load {err : SiError} (h : s.Accounted s.references [])
    (hx : ecsactSiWasmLoad thread systems builds s = .ok err s') :
    s'.Accounted s'.references [] := by
  have ⟨_, _, hg, hx⟩ := bind_eq_ok.mp hx
  cases hg
  split at hx
  case isTrue =>
    cases hx
    exact h
  case isFalse =>
    have ⟨_, s₁, h₁, hx⟩ := bind_eq_ok.mp hx
    have ⟨r, s₂, h₂, hx⟩ := bind_eq_ok.mp hx
    have ha := (h.clear h₁).loadLoop h₂
    cases r
    case some =>
      cases hx
      exact ha
    case none =>
      have ⟨_, s₃, h₃, hx⟩ := bind_eq_ok.mp hx
      cases hx
      cases h₃
      exact ha.withProgram rfl

-- The count of an instance tells whether there is a reference to it.
theorem locks (h : s.Accounted s.references []) (thread : ThreadId) : s.Locks thread := by
  intro m _
  have he : s.blocks.expired m.id = true ↔ m.id ∉ s.references := h.owned.expired_iff
  have hh : s.program.holds m = true ↔ m.id ∈ s.references := by
    simp [Program.holds, references]
  cases hp : s.program.holds m <;> simp_all

-- An instance which is found again, or taken from the pool, has one more reference.
theorem ensureMinst {minst : SystemImpls} (h : s.Accounted s.references [])
    (hx : ensureMinst thread s = .ok minst s') : s'.Accounted (minst.id :: s.references) [] ∧
      s'.references = s.references := by
  have ⟨r, s₁, h₁, hr⟩ := bind_eq_ok.mp hx
  have hl : (r = none ∧ s₁ = s) ∨ ∃ m, r = some m ∧ s.blocks.expired m.id = false ∧
      s₁ = { s with blocks := s.blocks.copy m.id } := by
    rw [lock_apply] at h₁
    cases ht : s.program.threadMinst thread
    case none =>
      rw [ht] at h₁
      cases h₁
      exact .inl ⟨rfl, rfl⟩
    case some m =>
      simp only [ht] at h₁
      split at h₁
      case isTrue =>
        cases h₁
        exact .inl ⟨rfl, rfl⟩
      case isFalse he =>
        cases h₁
        exact .inr ⟨m, rfl, by simpa using he, rfl⟩
  cases hl
  case inr hl =>
    obtain ⟨m, rfl, he, rfl⟩ := hl
    cases hr
    have hm : minst.id ∈ s.references := by
      by_contra hm
      rw [h.owned.expired_iff.mpr hm] at he
      cases he
    exact ⟨h.copy hm, rfl⟩
  case inl hl =>
    obtain ⟨rfl, rfl⟩ := hl
    have ⟨_, s₂, h₂, hr⟩ := bind_eq_ok.mp hr
    cases h₂
    have ⟨_, _, hg, hr⟩ := bind_eq_ok.mp hr
    cases hg
    split at hr
    case isTrue => cases hr
    case isFalse =>
      split at hr
      case h_1 => cases hr
      case h_2 m hm =>
        have ⟨_, s₃, h₃, hr⟩ := bind_eq_ok.mp hr
        cases h₃
        have ⟨_, s₄, h₄, hr⟩ := bind_eq_ok.mp hr
        cases h₄
        cases hr
        have hm : minst.id ∈ s₁.references :=
          List.mem_append_left _ <| List.mem_map_of_mem (List.mem_of_getElem? hm)
        exact ⟨(h.copy hm).withProgram rfl, rfl⟩

theorem enterSystemImpl {ctx : CtxPtr} {r : MinstExport × BitVec 32}
    (h : s.Accounted s.references []) (hx : enterSystemImpl thread ctx s = .ok r s') :
    s'.Accounted s'.references [] := by
  have ⟨minst, s₁, h₁, hx⟩ := bind_eq_ok.mp hx
  have ⟨ha₁, hr₁⟩ := h.ensureMinst h₁
  have ⟨systemId, s₂, h₂, hx⟩ := bind_eq_ok.mp hx
  have ⟨ha₂, ht₂⟩ := ha₁.lift_touched Program.touched_onThread h₂
  have ⟨_, s₃, h₃, hx⟩ := bind_eq_ok.mp hx
  have ⟨ha₃, ht₃⟩ := ha₂.lift_touched Program.touched_assert h₃
  cases he : minst.sysImplExports systemId
  case none => rw [he] at hx; cases hx
  case some exp =>
    rw [he] at hx
    have ⟨handle, s₄, h₄, hx⟩ := bind_eq_ok.mp hx
    have ⟨ha₄, ht₄⟩ := ha₃.lift_touched Program.touched_onThread h₄
    have ⟨_, s₅, h₅, hx⟩ := bind_eq_ok.mp hx
    cases hx
    cases h₅
    have hr : s₄.references = s.references := by
      rw [touched_references ht₄, touched_references ht₃, touched_references ht₂, hr₁]
    rw [← hr] at ha₄
    exact (ha₄.congr List.perm_middle.symm .rfl).withProgram rfl

theorem leaveSystemImpl {u : Unit} (h : s.Accounted s.references [])
    (hx : leaveSystemImpl thread s = .ok u s') : s'.Accounted s'.references [] := by
  have ⟨_, s₁, h₁, hx⟩ := bind_eq_ok.mp hx
  have ⟨ha₁, ht₁⟩ := h.lift_touched Program.touched_onThread h₁
  cases hx
  rw [← touched_references ht₁] at ha₁
  let p := s₁.program
  let gone := (p.running.filter (·.1 = thread)).map (·.2.id)
  let kept := (p.running.filter (·.1 ≠ thread)).map (·.2.id)
  have hf : (p.running.map (·.2.id)).Perm (gone ++ kept) := by
    have hp := List.filter_append_perm (fun e => decide (e.1 = thread)) p.running
    simpa [gone, kept] using (hp.map (·.2.id)).symm
  have hr : s₁.references.Perm (gone ++ (p.allMinsts.map (·.id) ++ kept)) := by
    refine (hf.append_left _).trans ?_
    rw [← List.append_assoc, ← List.append_assoc]
    exact List.perm_append_comm.append_right _
  let s₂ := s₁.releaseAll gone
  have hp : s₂.program = p := releaseAll_program
  have ha₂ : s₂.Accounted (p.allMinsts.map (·.id) ++ kept) [] := (ha₁.congr hr .rfl).releaseAll
  simp only [kept, ← hp] at ha₂
  exact ha₂.withProgram rfl

theorem run {event : Program.Event} {u : Unit} (h : s.Accounted s.references [])
    (hx : Counted.run event s = .ok u s') : s'.Accounted s'.references [] := by
  cases event
  case load =>
    have ⟨_, _, hl, hx⟩ := bind_eq_ok.mp hx
    cases hx
    exact h.load hl
  case reset =>
    have ⟨_, s₁, h₁, hx⟩ := bind_eq_ok.mp hx
    cases hx
    exact (h.clear h₁).withProgram rfl
  case enter =>
    have ⟨_, _, he, hx⟩ := bind_eq_ok.mp hx
    cases hx
    exact h.enterSystemImpl he
  case leave => exact h.leaveSystemImpl hx
  case guest =>
    have ⟨ha, ht⟩ := h.lift_touched (Program.touched_onThread.bind fun _ => .pure) hx
    exact touched_references ht ▸ ha
  all_goals
    cases hx
    exact h.withProgram rfl

end Accounted

section

variable {s s' : Counted} {p p' : Program} {event : Program.Event}

theorem Reachable.accounted (h : Reachable s) : s.Accounted s.references [] := by
  induction h
  case start p hp hc =>
    have hr : ({ program := p } : Counted).references = [] := by
      simp [references, hp.allMinsts, hp.running]
    rw [hr]
    refine ⟨?_, .nil, by simp, by simp [held, hc], by simp [hc]⟩
    simpa [hc] using Owned.start
  case step hs hi => exact hi.run hs.run

theorem Reachable.run_eq (h : Reachable s) :
    event.run s.program = project id (Counted.run event s) :=
  projects_run h.accounted.locks

theorem Reachable.step_iff (h : Reachable s) :
    Program.Step s.program event p' ↔ ∃ s', Step s event s' ∧ s'.program = p' := by
  constructor
  case mp =>
    intro ⟨he, hr⟩
    rw [h.run_eq] at hr
    cases hx : Counted.run event s
    case ok u s' =>
      rw [hx] at hr
      cases hr
      exact ⟨s', ⟨he, hx⟩, rfl⟩
    case error =>
      rw [hx] at hr
      cases hr
  case mpr =>
    rintro ⟨s', ⟨he, hr⟩, rfl⟩
    exact ⟨he, by rw [h.run_eq, hr]; rfl⟩

theorem Reachable.program (h : Reachable s) : Program.Reachable s.program := by
  induction h
  case start p hp _ => exact ⟨p, hp, .refl⟩
  case step hr hs hi =>
    have ⟨p₀, hp, hi⟩ := hi
    exact ⟨p₀, hp, hi.tail ⟨_, trivial, hr.step_iff.mpr ⟨_, hs, rfl⟩⟩⟩

-- The program as it is modelled, which looks for references, is the one which counts them, with the
-- same steps, results and faults.
theorem Reachable.bisimilar (h : Reachable s) : Program.Reachable s.program ∧
    (∀ event, event.run s.program = project id (Counted.run event s)) ∧
    (∀ event p', Program.Step s.program event p' ↔ ∃ s', Step s event s' ∧ s'.program = p') ∧
    ∀ thread m, s.program.threadMinst thread = some m →
      (s.blocks.expired m.id = false ↔ s.program.lock thread = some m) := by
  refine ⟨h.program, fun _ => h.run_eq, fun _ _ => h.step_iff, fun thread m hm => ?_⟩
  rw [h.accounted.locks thread m hm, Program.lock, hm]
  cases hh : s.program.holds m <;> simp [hh]

-- No object of an instance to which there is a reference has been deleted, and all of the others have
-- been, once each.
theorem Reachable.objects (h : Reachable s) :
    (∀ id, s.blocks.count id = s.references.count id) ∧
    s.deleted.Nodup ∧ s.deleted ⊆ s.made ∧
    (∀ id ∈ s.references, (s.ptrs id).Whole ∧
      ∀ o ∈ (s.ptrs id).destroy, o ∈ s.made ∧ o ∉ s.deleted) ∧
    ∀ o ∈ s.made, o ∈ s.deleted ∨ ∃ id ∈ s.references, o ∈ (s.ptrs id).destroy := by
  have ha := h.accounted
  have hp : s.made.Perm (s.deleted ++ s.held s.references) := by simpa using ha.perm
  have ⟨hn, _, hd⟩ := List.nodup_append.mp <| hp.nodup_iff.mp ha.nodup
  have hm (o) : o ∈ s.held s.references ↔ ∃ id ∈ s.references, o ∈ (s.ptrs id).destroy := by
    simp only [held, List.mem_flatMap, List.mem_filter, decide_eq_true_eq]
    exact exists_congr fun id => and_congr_left fun _ => and_iff_right_of_imp (ha.owned.subset ·)
  refine ⟨ha.owned.count, hn, fun o ho => hp.mem_iff.mpr <| List.mem_append_left _ ho,
    fun id hi => ⟨ha.whole id <| by simpa using ha.owned.subset hi, fun o ho => ?_⟩, fun o ho => ?_⟩
  · have hh := (hm o).mpr ⟨id, hi, ho⟩
    exact ⟨hp.mem_iff.mpr <| List.mem_append_right _ hh, fun hx => hd o hx o hh rfl⟩
  · exact (List.mem_append.mp <| hp.mem_iff.mp ho).imp_right (hm o).mp

end

open Program in
-- An execution keeps its instance over a reset.
theorem enter_reset : ∃ p p', Program.Step checkedLoaded (.enter 0 2) p ∧ Program.Step p .reset p' ∧
    p'.created = 100 ∧ p'.allMinsts = [] ∧ p'.running = [(0, plainImpls 1)] ∧
    p'.threadMinst 0 = some (plainImpls 1) :=
  ⟨_, _, ⟨⟨List.mem_singleton_self 0, by decide⟩, rfl⟩, ⟨trivial, rfl⟩, rfl, rfl, rfl, rfl⟩

-- All but the second of the hundred instances end with the reset.
theorem exists_reachable : ∃ s, Reachable s ∧ s.program.created = 100 ∧ s.references = [1] ∧
    s.program.threadMinst 0 = some (plainImpls 1) := by
  have ⟨p, p', he, hr, hc, ha, hm, ht⟩ := enter_reset
  have h₀ : Reachable { program := Program.checked } := .start Program.checked_starts rfl
  obtain ⟨s₁, h₁, hp₁⟩ := h₀.step_iff.mp Program.load_checked
  obtain ⟨s₂, h₂, hp₂⟩ := (h₀.step h₁).step_iff.mp (hp₁ ▸ he)
  obtain ⟨s₃, h₃, hp₃⟩ := ((h₀.step h₁).step h₂).step_iff.mp (hp₂ ▸ hr)
  refine ⟨s₃, ((h₀.step h₁).step h₂).step h₃, hp₃ ▸ hc, ?_, hp₃ ▸ ht⟩
  simp [references, hp₃, ha, hm, plainImpls]

theorem counted_bisimilar : ∃ s : Counted, s.program.threadMinst 0 = some (plainImpls 1) ∧
    (s.blocks.expired 1 = false ↔ s.program.lock 0 = some (plainImpls 1)) := by
  have ⟨s, h, _, _, ht⟩ := exists_reachable
  exact ⟨s, ht, h.bisimilar.2.2.2 0 (plainImpls 1) ht⟩

theorem counted_objects : ∃ s : Counted, s.program.created = 100 ∧ s.references = [1] ∧
    s.blocks.count 1 = 1 ∧ s.blocks.count 0 = 0 ∧
    ∀ o ∈ s.made, o ∈ s.deleted ∨ o ∈ (s.ptrs 1).destroy := by
  have ⟨s, h, hc, hr, _⟩ := exists_reachable
  have ⟨hn, _, _, _, ho⟩ := h.objects
  refine ⟨s, hc, hr, by rw [hn, hr]; rfl, by rw [hn, hr]; rfl, fun o hm => (ho o hm).imp_right ?_⟩
  simp [hr]

end Ecsact.Counted
