import EcsactSiWasmer.Execution.Linking
import EcsactSiWasmer.Execution.Theorems.Calls
import EcsactSiWasmer.Execution.Theorems.Hosting
import EcsactSiWasmer.Execution.Theorems.Provenance

open EStateM Ecsact.World Ecsact.CallMem

namespace Ecsact

theorem resolveImports_of_find {imports : List MinstImport} {externs : List ImportResolveFunc} :
    resolveImports imports externs =
      match imports.find? fun imp => (importResolver imp).isNone with
      | some imp => .error ⟨.unresolvedGuestImport, unresolvedMessage imp⟩
      | none     => .ok <| externs ++ imports.filterMap importResolver := by
  induction imports generalizing externs
  case nil => simp [resolveImports]
  case cons imp rest hi =>
    rw [resolveImports]
    cases hr : importResolver imp <;> simp [hr, hi]

-- An instance is made of a module all of whose imports are resolved.
theorem Program.imports_of_built {systems : List (SystemId × String)} {build : Build}
    {m : SystemImpls} (h : Built systems build m) : ∃ module, build.module = .ok module ∧
      (module.imports.find? fun imp => (importResolver imp).isNone) = none ∧
      ∃ ptrs, build.externs = .ok ptrs ∧ m.minst = {
        imports := module.imports
        exports := List.zipWith (fun e ptr => ⟨e.name, e.kind, ptr⟩) module.exports ptrs
      } := by
  have hm := h.minst
  simp only [Build.minst] at hm
  cases hc : build.module
  case error => simp [hc] at hm
  case ok module =>
    simp only [hc] at hm
    cases hf : module.imports.find? fun imp => (importResolver imp).isNone
    case some => simp [hf] at hm
    case none =>
      simp only [hf] at hm
      split at hm
      case h_1 => cases hm
      case h_2 => cases hm
      case h_3 ptrs he _ =>
        injection hm with hm
        exact ⟨module, rfl, hf, ptrs, he, hm.symm⟩

-- Each import is resolved if none is found that is not.
theorem forall₂_filterMap {imports : List MinstImport}
    (h : (imports.find? fun imp => (importResolver imp).isNone) = none) :
    List.Forall₂ (fun imp func => importResolver imp = some func) imports
      (imports.filterMap importResolver) := by
  induction imports
  case nil => exact .nil
  case cons imp rest hi =>
    cases hr : importResolver imp
    case none => simp [hr] at h
    case some func =>
      rw [List.filterMap_cons_some hr]
      exact .cons hr <| hi <| by simpa [List.find?_cons, hr] using h

namespace Engine

variable {engine : Engine} {bytes : List Byte} {k : Nat}

-- The load, which does not look at the externs, makes the instances that are linked with them.
theorem create_build : engine.create bytes k = Minst.create (engine.build bytes k) := by
  simp only [create, Minst.create, build]
  cases engine.compile bytes k
  case error => rfl
  case ok module =>
    simp only [resolveImports_of_find]
    cases module.imports.find? fun imp => (importResolver imp).isNone
    case some => rfl
    case none =>
      simp only [Minst.instanceNew, List.nil_append]
      rfl

theorem linked_of_built {systems : List (SystemId × String)} {m : SystemImpls}
    (h : Program.Built systems (engine.build bytes k) m) : ∃ module externs ptrs,
      engine.Linked bytes k m module externs ptrs := by
  have ⟨module, hc, hf, ptrs, he, hm⟩ := Program.imports_of_built h
  have hc : engine.compile bytes k = .ok module := hc
  simp only [build, hc] at he
  exact ⟨module, _, ptrs, hc, forall₂_filterMap hf, he, by rw [hm], by rw [hm]⟩

end Engine

namespace Program

variable {p p' : Program} {thread : ThreadId} {path : String} {content : List Byte}
  {systems : List (SystemId × String)} {engine : Engine} {err : SiError}

theorem onFiles_ok {α : Type} {x : FilesM α} {a : α} {files : Files}
    (h : x (p.view thread).files = .ok a files) : onThread thread (onFiles x) p =
      .ok a (p.put thread { p.view thread with files := files }) :=
  zoom_ok <| zoom_ok h

theorem loadFileAt_missing (h : p.world.files.disk path = none) :
    ecsactSiWasmLoadFileAt thread path systems engine p =
      .ok .fileOpenFail (p.put thread (p.view thread)) := by
  rw [ecsactSiWasmLoadFileAt, bind_ok (onFiles_ok <| Files.fopen_none h)]
  rfl

section

variable {α : Type} {x : FilesM α} {a : α} {s s' : Stream}

theorem setStream_self {files : Files} {k : Nat} (h : files.streams[k]? = some s) :
    files.setStream k s = files := by
  have ⟨hk, hs⟩ := List.getElem?_eq_some_iff.mp h
  simp [Files.setStream, ← hs]

-- What is done to the latest stream.
theorem onStream_ok (h : ∀ files : Files,
    files.streams[(p.view thread).files.streams.length]? = some s →
    x files = .ok a (files.setStream (p.view thread).files.streams.length s')) :
    onThread thread (onFiles x) (p.withStream thread s) = .ok a (p.withStream thread s') := by
  rw [onFiles_ok <| h _ <| by simp [withStream, view_put]]
  simp [withStream, view_put, put_put, Files.setStream]

end

theorem loadFileAt_present (h : p.world.files.disk path = some content) :
    ecsactSiWasmLoadFileAt thread path systems engine p =
      let p' := p.withStream thread (Files.readStream path content)
      if content = [] then .ok .fileReadFail p'
      else ecsactSiWasmLoadBytes thread content (BitVec.ofNat 32 content.length) systems engine
        p' := by
  let k := (p.view thread).files.streams.length
  let s (pos : Nat) : Stream := ⟨path, "rb", content, pos, false⟩
  have h₁ : onThread thread (onFiles (Files.fopen path "rb")) p =
      .ok (some k) (p.withStream thread (s 0)) := onFiles_ok <| Files.fopen_some h
  have h₂ : onThread thread (onFiles (Files.fseek (some k) (·.content.length)))
      (p.withStream thread (s 0)) = .ok () (p.withStream thread (s content.length)) :=
    onStream_ok fun files hs => bind_ok (Files.stream_ok hs rfl)
  have h₃ : onThread thread (onFiles (Files.ftell (some k)))
      (p.withStream thread (s content.length)) =
        .ok content.length (p.withStream thread (s content.length)) :=
    onStream_ok fun files hs => by
      rw [Files.ftell, bind_ok (Files.stream_ok hs rfl), setStream_self hs]
      rfl
  have h₄ : onThread thread (onFiles (Files.fseek (some k) fun _ => 0))
      (p.withStream thread (s content.length)) = .ok () (p.withStream thread (s 0)) :=
    onStream_ok fun files hs => bind_ok (Files.stream_ok hs rfl)
  have h₅ : onThread thread (onFiles (Files.fread content.length (some k)))
      (p.withStream thread (s 0)) = .ok content (p.withStream thread (s content.length)) :=
    onStream_ok fun files hs => by
      rw [Files.fread_ok hs rfl]
      simp [Files.readBytes, s]
  rw [ecsactSiWasmLoadFileAt, bind_ok h₁]
  simp only [Option.isNone_some, Bool.false_eq_true, if_false]
  rw [bind_ok h₂, bind_ok h₃, bind_ok h₄, bind_ok h₅]
  simp only [List.length_eq_zero_iff, lt_irrefl, or_false]
  split <;> rfl

-- A size of 2 ^ 31 bytes or more can be negative, or that of a part only.
theorem loadBytes_ok (h : ecsactSiWasmLoadBytes thread content
    (BitVec.ofNat 32 content.length) systems engine p = .ok err p') :
    (p.setSystemExecutionImpl = true → content.length % 2 ^ 32 < 2 ^ 31) ∧
      ecsactSiWasmLoad thread systems
        (engine.build (content.take (content.length % 2 ^ 32))) p = .ok err p' := by
  have ⟨_, _, hg, h⟩ := bind_eq_ok.mp h
  cases hg
  split at h
  case isTrue => cases h
  case isFalse hn =>
    refine ⟨fun hs => ?_, by simpa using h⟩
    by_contra hx
    refine hn ⟨hs, .inl ?_⟩
    rw [BitVec.toInt_eq_toNat_cond, BitVec.toNat_ofNat]
    split <;> omega

-- The load of a file whose size is an `int` is that of its content.
theorem loadFileAt_eq (h : ∀ content, p.world.files.disk path = some content → content.length < 2 ^ 31) :
    ecsactSiWasmLoadFileAt thread path systems engine p =
      ecsactSiWasmLoadFile thread (p.loadedFile path) systems engine.build
        (p.fileRead thread path) := by
  rw [loadedFile, fileRead]
  cases hd : p.world.files.disk path
  case none => exact loadFileAt_missing hd
  case some content =>
    rw [loadFileAt_present hd]
    cases content
    case nil => rfl
    case cons byte rest =>
      have hl : (byte :: rest).length < 2 ^ 31 := h _ hd
      have hm : (byte :: rest).length % 2 ^ 32 = (byte :: rest).length := Nat.mod_eq_of_lt (by omega)
      have hn : ¬((BitVec.ofNat 32 (byte :: rest).length).toInt < 0 ∨
          (byte :: rest).length < (BitVec.ofNat 32 (byte :: rest).length).toNat) := by
        rw [BitVec.toInt_eq_toNat_cond, BitVec.toNat_ofNat, hm]
        omega
      rw [if_neg (List.cons_ne_nil _ _), ecsactSiWasmLoadBytes, bind_ok (get_apply _),
        if_neg fun hc => hn hc.2, BitVec.toNat_ofNat, hm, List.take_length]
      rfl

theorem getSystemImplExports_error {inst : Minst} {exports : SystemId → Option MinstExport}
    (h : getSystemImplExports inst systems exports = .error err) :
    err = .exportNotFound ∨ err = .exportInvalid := by
  induction systems generalizing exports
  case nil => cases h
  case cons e systems hi =>
    simp only [getSystemImplExports] at h
    split at h
    case h_1 =>
      cases h
      exact .inl rfl
    case h_2 =>
      split at h
      case isTrue =>
        cases h
        exact .inr rfl
      case isFalse => exact hi h

theorem error_ne_file {build : Build} (h : build.error systems = some err) :
    err ≠ .fileOpenFail ∧ err ≠ .fileReadFail := by
  simp only [Build.error] at h
  split at h
  case h_1 err' hm =>
    cases h
    cases err'.code <;> simp [Build.toSiError]
  case h_2 =>
    split at h
    case h_1 err' he =>
      cases h
      rcases getSystemImplExports_error he with rfl | rfl <;> simp
    case h_2 =>
      split at h
      case isTrue  => cases h; simp
      case isFalse => cases h

theorem load_ne_file {builds : Nat → Build}
    (h : ecsactSiWasmLoad thread systems builds p = .ok err p') :
    err ≠ .fileOpenFail ∧ err ≠ .fileReadFail := by
  cases ecsactSiWasmLoad_ok h
  case unset               => simp
  case done                => simp
  case failed he _ => exact error_ne_file he

-- The errors which are about the file are those of a file that is not there, or that is empty. Else
-- the pool has instances of what the file starts with, up to its size as an `int`, and all of them
-- are linked with the functions that their imports name.
theorem loadFileAt_links (h : ecsactSiWasmLoadFileAt thread path systems engine p = .ok err p') :
    (err = .fileOpenFail ↔ p.world.files.disk path = none) ∧
    (err = .fileReadFail ↔ p.world.files.disk path = some []) ∧
    ∀ content, p.world.files.disk path = some content → content ≠ [] →
      p.setSystemExecutionImpl = true →
        content.length % 2 ^ 32 < 2 ^ 31 ∧ (err = .ok → p'.allMinsts.length = 100) ∧
        ∀ k (hk : k < p'.allMinsts.length), ∃ module externs ptrs,
          engine.Linked (content.take (content.length % 2 ^ 32)) k p'.allMinsts[k] module externs
            ptrs := by
  cases hd : p.world.files.disk path
  case none =>
    rw [loadFileAt_missing hd] at h
    cases h
    simp
  case some content =>
    rw [loadFileAt_present hd] at h
    by_cases hc : content = []
    case pos =>
      subst hc
      cases h
      simp
    case neg =>
      rw [if_neg hc] at h
      have ⟨hs, hl⟩ := loadBytes_ok h
      have ⟨ho, hr⟩ := load_ne_file hl
      refine ⟨by simp [ho], by simp [hr, hc], ?_⟩
      rintro _ ⟨⟩ _ hx
      refine ⟨hs hx, fun he => ?size, fun k hk => ?instances⟩
      case size =>
        subst he
        cases ecsactSiWasmLoad_ok hl
        case done made _ hm _ _ he =>
          obtain ⟨_, _, _, rfl⟩ := he
          simpa using hm
        case failed he _ => exact absurd he <| Build.error_ne_ok _ _
      case instances =>
        cases ecsactSiWasmLoad_built hl
        case inl hu =>
          have hu : p.setSystemExecutionImpl = false := hu.1
          simp [hu] at hx
        case inr hb => exact Engine.linked_of_built <| hb k hk

theorem mem_of_importResolver {imp : MinstImport} {func : ImportResolveFunc}
    (h : importResolver imp = some func) :
    (imp.module = "env" ∧ (imp.name, func) ∈ guestEnvModuleImports) ∨
    (imp.module = "wasi_snapshot_preview1" ∧ (imp.name, func) ∈ guestWasiModuleImports) := by
  have hl {table : List (String × ImportResolveFunc)} (h : table.lookup imp.name = some func) :
      (imp.name, func) ∈ table := by
    have ⟨_, _, hl, _⟩ := List.lookup_eq_some_iff.mp h
    simp [hl]
  simp only [importResolver] at h
  split at h
  case isTrue hm => exact .inl ⟨hm, hl h⟩
  case isFalse =>
    split at h
    case isTrue hm => exact .inr ⟨hm, hl h⟩
    case isFalse   => cases h

-- Whatever has been loaded, what a guest calls by an import of its instance is the function which that
-- import was resolved to.
theorem Loading.linked {calls : List LoadCall} {m : SystemImpls} {imp : MinstImport}
    (h : Loading calls p) (hm : p.Knows m) (hi : imp ∈ m.minst.imports) :
    ∃ func, importResolver imp = some func ∧
      ((imp.module = "env" ∧ (imp.name, func) ∈ guestEnvModuleImports) ∨
        (imp.module = "wasi_snapshot_preview1" ∧ (imp.name, func) ∈ guestWasiModuleImports)) ∧
      ∀ thread call p', (thread, m) ∈ p.running → call.name = imp.name →
        Step p (.guest thread call) p' → ∃ w, p' = p.put thread w ∧
          func.funcCallback call.args (call.enter (p.view thread)) = .ok none w := by
  have ⟨_, _, _, _, _, hb⟩ := h.provenance.known m hm
  have ⟨module, _, hf, _, _, hx⟩ := imports_of_built hb
  replace hi : imp ∈ module.imports := by simpa [hx] using hi
  have hr : (importResolver imp).isSome := by
    have hn := List.find?_eq_none.mp hf imp hi
    simpa [Option.isSome_iff_ne_none] using hn
  have ⟨func, hr⟩ := Option.isSome_iff_exists.mp hr
  have ht := mem_of_importResolver hr
  refine ⟨func, hr, ht, fun thread call p' _ hc hs => ?_⟩
  have hl : importTables.lookup imp.name = some func := by
    refine lookup_importTables (e := (imp.name, func)) <| List.mem_append.mpr ?_
    exact ht.imp And.right And.right
  have he : call.func = func :=
    Option.some_inj.mp <| (hc ▸ lookup_importTables call.mem).symm.trans hl
  have ⟨_, _, hg, hq⟩ := bind_eq_ok.mp hs.run
  cases hq
  have ⟨w, hw, hp⟩ := guest_view hg
  exact ⟨w, hp, he ▸ hw⟩

-- An engine which makes the instances of a module from anything.
def plainEngine : Engine where
  compile _ k         := (plainBuild k).module
  instantiate _ _ k   := (plainBuild k).externs
  startRun _ _        := {}
  initRun _ _         := {}

-- The program when there is a file of four bytes.
def withFile : Program :=
  { checked with world := { checked.world with files := { checked.world.files with
    disk := fun path => if path = "a.wasm" then some [0, 97, 115, 109] else none } } }

theorem load_withFile : ∃ p', p'.allMinsts = (List.range 100).map plainImpls ∧
    ecsactSiWasmLoadFileAt 0 "a.wasm" plainSystems plainEngine withFile = .ok .ok p' := by
  have hd : withFile.world.files.disk "a.wasm" = some [0, 97, 115, 109] := rfl
  have he : ecsactSiWasmLoadFileAt 0 "a.wasm" plainSystems plainEngine withFile =
      ecsactSiWasmLoadFile 0 (withFile.loadedFile "a.wasm") plainSystems plainEngine.build
        (withFile.fileRead 0 "a.wasm") :=
    loadFileAt_eq fun content hc => by
      cases hd.symm.trans hc
      decide
  have hc : (withFile.fileRead 0 "a.wasm").callMemInfo = fun _ => none := Function.update_eq_self ..
  exact ⟨_, rfl, he.trans <| load_filled rfl hc rfl rfl⟩

theorem loadFileAt_withFile : ∃ p', p'.allMinsts.length = 100 ∧
    ecsactSiWasmLoadFileAt 0 "a.wasm" plainSystems plainEngine withFile = .ok .ok p' ∧
    ∀ k (hk : k < p'.allMinsts.length), ∃ module externs ptrs,
      plainEngine.Linked [0, 97, 115, 109] k p'.allMinsts[k] module externs ptrs := by
  have ⟨p', hm, h⟩ := load_withFile
  obtain ⟨_, _, hl⟩ := loadFileAt_links h
  obtain ⟨_, _, hk⟩ := hl [0, 97, 115, 109] rfl (by simp) rfl
  exact ⟨p', by simp [hm], h, hk⟩

-- The guest calls an import of its instance.
theorem checked_linked : ∃ p p' w func, p.running = [(0, plainImpls 1)] ∧
    ⟨"env", "ecsact_system_execution_context_entity"⟩ ∈ (plainImpls 1).minst.imports ∧
    Step p (.guest 0 (AnyExecution.entityCall 8)) p' ∧
    importResolver ⟨"env", "ecsact_system_execution_context_entity"⟩ = some func ∧
    p' = p.put 0 w ∧
    func.funcCallback [.i32 8] ((AnyExecution.entityCall 8).enter (p.view 0)) = .ok none w := by
  obtain ⟨p, p', r, he, hr, _, hm, hs⟩ := enter_checked
  have he : Step checkedLoaded (.enter 0 2) p := ⟨he, bind_ok hr⟩
  have hl := (Loading.load (.start checked_starts) load_checked).other id he
  have hi : ⟨"env", "ecsact_system_execution_context_entity"⟩ ∈ (plainImpls 1).minst.imports := by
    simp [plainImpls, plainImports]
  have hk : (0, plainImpls 1) ∈ p.running := hm ▸ List.mem_singleton_self _
  obtain ⟨func, hf, _, hc⟩ := hl.linked (.inr <| .inr ⟨_, hk, rfl⟩) hi
  obtain ⟨w, hp, hw⟩ := hc 0 _ p' hk rfl hs
  exact ⟨p, p', w, func, hm, hi, hs, hf, hp, hw⟩

end Program
end Ecsact
