import EcsactSiWasmer.Execution.Grants
import EcsactSiWasmer.Execution.Theorems.Opens
import EcsactSiWasmer.Imports.Theorems.Primitives

open EStateM Ecsact.World Ecsact.CallMem

namespace Ecsact

def VirtualFileInfo.grant (info : VirtualFileInfo) : Grant where
  realPath    := info.realPath
  virtualPath := info.virtualPath
  fd          := info.pseudoFileDescriptor

theorem within_served (call : ImportCall) :
    Within (fun w w' => Files.Served w.files w'.files) call.run := by
  have hp := primitives_of_files (R := Files.Served) (fun _ => Files.served_ensureOpen)
    (fun _ _ => Files.served_fread) fun _ => Files.served_close
  exact fun w => hp.callback call.mem (call.enter w)

namespace Files

variable {grants : List Grant} {files files' : Files} {fd : BitVec 32} {g : Grant}
  {realPath virtualPath : String}

-- What the state has of the grants, of which there are no more than there are descriptors.
structure Represents (grants : List Grant) (files : Files) : Prop where
  bound    : grants.length ≤ 2 ^ 31 - 11
  last     : files.lastFileDescriptor = BitVec.ofNat 32 (10 + grants.length)
  numbered : ∀ i g, grants[i]? = some g → g.fd = BitVec.ofNat 32 (11 + i)
  tracks   : files.registry.Tracks Grant.virtualPath Grant.fd VirtualFileInfo.grant grants
  fdstat   : ∀ fd info, files.virtualFiles fd = some info → info.fdstat = fileFdstat
  streams  : ∀ s ∈ files.streams, s.mode = "r" ∧ ∃ g ∈ grants, s.path = cStr g.realPath
  intact   : files.Intact

namespace Represents

theorem start {disk : String → Option (List Byte)} : Represents [] { disk := disk } where
  bound        := by decide
  last         := rfl
  numbered     := nofun
  tracks       := .nil
  fdstat _ _ h := by cases h
  streams      := nofun
  intact       := ⟨nofun, nofun⟩

theorem fd_ne (h : Represents grants files) :
    ∀ g ∈ grants, g.fd ≠ BitVec.ofNat 32 (11 + grants.length) := by
  intro g hg he
  have ⟨i, hi⟩ := List.getElem?_of_mem hg
  have hl := (List.getElem?_eq_some_iff.mp hi).1
  rw [h.numbered i g hi] at he
  have hv := congrArg BitVec.toNat he
  have hb := h.bound
  simp only [BitVec.toNat_ofNat] at hv
  omega

-- The descriptors tell the grants apart.
theorem fd_inj (h : Represents grants files) {g' : Grant} (hg : g ∈ grants) (hg' : g' ∈ grants)
    (he : g.fd = g'.fd) : g = g' := by
  have ⟨i, hi⟩ := List.getElem?_of_mem hg
  have ⟨j, hj⟩ := List.getElem?_of_mem hg'
  have hil := (List.getElem?_eq_some_iff.mp hi).1
  have hjl := (List.getElem?_eq_some_iff.mp hj).1
  rw [h.numbered i g hi, h.numbered j g' hj] at he
  have hv := congrArg BitVec.toNat he
  have hb := h.bound
  simp only [BitVec.toNat_ofNat] at hv
  have hij : i = j := by omega
  exact Option.some_inj.mp <| hi.symm.trans <| hij ▸ hj

theorem grant_of_table {info : VirtualFileInfo} (h : Represents grants files)
    (hv : files.virtualFiles fd = some info) :
    info.pseudoFileDescriptor = fd ∧ inForce grants info.virtualPath = some info.grant :=
  (h.tracks.table fd info.grant).mp <| congrArg (Option.map _) hv

theorem grant_mem {info : VirtualFileInfo} (h : Represents grants files)
    (hv : files.virtualFiles fd = some info) : info.grant ∈ grants :=
  List.mem_of_latest (h.grant_of_table hv).2

theorem unused (h : Represents grants files) :
    files.virtualFiles (BitVec.ofNat 32 (11 + grants.length)) = none := by
  cases hv : files.virtualFiles (BitVec.ofNat 32 (11 + grants.length))
  case none      => rfl
  case some info =>
    exact absurd (h.grant_of_table hv).1 <| h.fd_ne _ <| h.grant_mem hv

theorem last_succ (h : Represents grants files) :
    files.lastFileDescriptor + 1 = BitVec.ofNat 32 (11 + grants.length) := by
  rw [h.last, show 11 + grants.length = 10 + grants.length + 1 by omega]
  exact (BitVec.ofNat_add (10 + grants.length) 1).symm

theorem last_eq (h : Represents grants files) :
    files.lastFileDescriptor = BitVec.intMax 32 ↔ grants.length = 2 ^ 31 - 11 := by
  have hb := h.bound
  rw [h.last, ← BitVec.toNat_inj, BitVec.toNat_ofNat, BitVec.toNat_intMax]
  omega

theorem allow_eq (h : Represents grants files) (hn : grants.length < 2 ^ 31 - 11) :
    allowFileReadAccess realPath virtualPath files = .ok (BitVec.ofNat 32 (11 + grants.length))
      (files.allowed realPath virtualPath) := by
  have hl : files.lastFileDescriptor ≠ BitVec.intMax 32 := fun he => by
    rw [h.last_eq] at he
    omega
  rw [allowFileReadAccess_eq hl (h.last_succ ▸ h.unused), h.last_succ]

theorem lt_of_allow_ok (h : Represents grants files)
    (ha : allowFileReadAccess realPath virtualPath files = .ok fd files') :
    grants.length < 2 ^ 31 - 11 := by
  refine lt_of_le_of_ne h.bound fun he => ?_
  exact allowFileReadAccess_ne_ok (h.last_eq.mpr he) ha

theorem allow (h : Represents grants files) (hn : grants.length < 2 ^ 31 - 11) :
    Represents (grants ++ [⟨realPath, virtualPath, BitVec.ofNat 32 (11 + grants.length)⟩])
      (files.allowed realPath virtualPath) where
  bound := by
    rw [List.length_append, List.length_singleton]
    omega
  last := by
    rw [List.length_append, List.length_singleton, ← Nat.add_assoc, Nat.add_right_comm]
    exact h.last_succ
  numbered i g hi := by
    rw [List.getElem?_append] at hi
    split at hi
    case isTrue  => exact h.numbered i g hi
    case isFalse hl =>
      have hz : i - grants.length = 0 := by
        have hi := (List.getElem?_eq_some_iff.mp hi).1
        rw [List.length_singleton] at hi
        omega
      rw [hz] at hi
      cases hi
      rw [show i = grants.length by omega]
  tracks := by
    have hw := h.fd_ne
    rw [← h.last_succ] at hw ⊢
    exact h.tracks.bind hw rfl
  fdstat fd info hv := by
    cases allowed_eq_some hv
    case inl he => exact congrArg VirtualFileInfo.fdstat he.2
    case inr hv => exact h.fdstat fd info hv
  streams s hs := by
    have ⟨hm, g, hg, hp⟩ := h.streams s hs
    exact ⟨hm, g, List.mem_append_left _ hg, hp⟩
  intact := h.intact.mono rfl fun fd info hv => by
    cases allowed_eq_some hv
    case inl he => exact .inl <| congrArg VirtualFileInfo.openedFile he.2
    case inr hv => exact .inr hv

theorem served (h : Represents grants files) (hs : Served files files') :
    Represents grants files' where
  bound    := h.bound
  last     := hs.kept.last.trans h.last
  numbered := h.numbered
  tracks   := h.tracks.congr hs.kept.index fun fd => by
    have ht := congrArg (Option.map VirtualFileInfo.grant) (hs.kept.table fd)
    rw [Option.map_map, Option.map_map] at ht
    exact ht
  fdstat fd info hv := by
    obtain ⟨info', hv', he⟩ := hs.kept.exists_entry hv
    have hf := congrArg VirtualFileInfo.fdstat he
    exact hf.symm.trans <| h.fdstat fd info' hv'
  streams s hs' := by
    cases hs.kept.streams s hs'
    case inl hp =>
      obtain ⟨s', hs', hp, hm⟩ := hp
      rw [hp, hm]
      exact h.streams s' hs'
    case inr hp =>
      obtain ⟨hm, fd, info, hv, hp⟩ := hp
      exact ⟨hm, info.grant, h.grant_mem hv, hp⟩
  intact   := hs.intact h.intact

theorem elsewhere {disk : String → Option (List Byte)} {content : Nat → List Byte}
    (h : Represents grants files) : Represents grants { files with
      disk    := disk
      streams := files.streams.mapIdx fun k s => { s with content := content k }
    } where
  bound    := h.bound
  last     := h.last
  numbered := h.numbered
  tracks   := h.tracks
  fdstat   := h.fdstat
  streams s hs := by
    have ⟨k, hk, he⟩ := List.mem_mapIdx.mp hs
    have h := h.streams _ <| List.getElem_mem hk
    rw [← he]
    exact h
  intact := {
    stream {_ _ k} hv ho := by
      have ⟨s, hs, hc, hp⟩ := h.intact.stream hv ho
      exact ⟨{ s with content := content k }, by rw [List.getElem?_mapIdx, hs]; rfl, hc, hp⟩
    distinct := h.intact.distinct
  }

theorem withDisk {disk : String → Option (List Byte)} (h : Represents grants files) :
    Represents grants { files with disk := disk } where
  bound    := h.bound
  last     := h.last
  numbered := h.numbered
  tracks   := h.tracks
  fdstat   := h.fdstat
  streams  := h.streams
  intact   := ⟨h.intact.stream, h.intact.distinct⟩

theorem exists_entry (h : Represents grants files) (hg : inForce grants virtualPath = some g) :
    ∃ info, files.virtualFiles g.fd = some info ∧ info.grant = g :=
  h.tracks.exists_value <| List.name_of_latest hg ▸ hg

theorem current (h : Represents grants files) (v : String) :
    files.virtualFileMap v = (inForce grants v).map Grant.fd :=
  h.tracks.index v

theorem toInt_fd (h : Represents grants files) (hg : g ∈ grants) : 10 < g.fd.toInt := by
  have hb := h.bound
  have ⟨i, hi⟩ := List.getElem?_of_mem hg
  have hl := (List.getElem?_eq_some_iff.mp hi).1
  rw [h.numbered i g hi, toInt_eq_toNat] <;> rw [BitVec.toNat_ofNat] <;> omega

theorem answers (h : Represents grants files) : Refines grants files where
  inverse v fd := by
    constructor
    case mp =>
      intro hv
      have ⟨info, hi, he⟩ := h.tracks.consistent.named hv
      exact ⟨info, hi, he, (h.grant_of_table hi).1⟩
    case mpr =>
      intro ⟨info, hi, he, _⟩
      exact he ▸ h.tracks.consistent.indexed hi
  pseudo fd info hv := (h.grant_of_table hv).1
  current := h.current
  realPath v g hg := by
    have ⟨info, hi, he⟩ := h.exists_entry hg
    have hr : files.realPath g.fd = g.realPath := by
      rw [Files.realPath, hi]
      exact congrArg Grant.realPath he
    refine ⟨?_, hr⟩
    rw [realPathOf, h.current, hg]
    exact hr
  fdstat v g hg := by
    have ⟨info, hi, _⟩ := h.exists_entry hg
    constructor
    case left => rw [fdstatOf, h.current, hg]; rfl
    case right =>
      rw [Files.fdstat, hi, Option.map_some, h.fdstat g.fd info hi]
      rfl
  unmapped v hg := by
    rw [realPathOf, fdstatOf, h.current, hg]
    exact ⟨rfl, rfl⟩
  superseded g hg hf := by
    have hk : ∀ g' ∈ grants, g'.fd = g.fd → g' = g :=
      fun g' hg' he => h.fd_inj hg' hg he
    have hv : files.virtualFiles g.fd = none := h.tracks.table_eq_none hk hf
    rw [Files.realPath, Files.fdstat, hv]
    exact ⟨rfl, rfl, rfl⟩
  descriptors := by
    refine List.pairwise_iff_getElem.mpr fun i j hi hj hij he => ?_
    rw [h.numbered i _ (List.getElem?_eq_getElem hi)] at he
    rw [h.numbered j _ (List.getElem?_eq_getElem hj)] at he
    have hv := congrArg BitVec.toNat he
    have hb := h.bound
    simp only [BitVec.toNat_ofNat] at hv
    omega
  positive g := h.toInt_fd

theorem remaps (h : Represents grants files) (hn : grants.length < 2 ^ 31 - 11) :
    Remaps grants files realPath virtualPath := by
  refine ⟨_, _, h.allow_eq hn, h.fd_ne, ?positive, rfl, fun v hv => ⟨?index, fun fd hfd => ?table⟩⟩
  case positive => rw [toInt_eq_toNat] <;> rw [BitVec.toNat_ofNat] <;> omega
  case index => rw [allowed_virtualFileMap, if_neg hv]
  case table =>
    have ⟨info, hi, he⟩ := h.tracks.consistent.named hfd
    refine Registry.bind_table_of_ne (fun hk => ?fresh) fun hk => ?bound
    case fresh =>
      rw [h.last_succ] at hk
      cases h.unused.symm.trans <| hk ▸ hi
    case bound =>
      -- Two paths of one descriptor are the same.
      have ⟨info', hi', he'⟩ := h.tracks.consistent.named hk
      cases hi.symm.trans hi'
      exact hv <| he.symm.trans he'

end Represents

-- The invariant of all histories.
theorem History.represents (h : History grants files) : Represents grants files := by
  induction h
  case start => exact .start
  case allow grants files files' realPath virtualPath fd _ ha hi =>
    have hn := hi.lt_of_allow_ok ha
    cases (hi.allow_eq hn).symm.trans ha
    exact hi.allow hn
  case ensureOpen hi => exact hi.served <| served_ensureOpen _
  case close hi      => exact hi.served <| served_close _
  case guest hi      => exact hi.served <| within_served _ _
  case elsewhere hi  => exact hi.elsewhere

theorem History.refines (h : History grants files) : Refines grants files ∧
    (grants.length < 2 ^ 31 - 11 → ∀ realPath virtualPath,
      Remaps grants files realPath virtualPath) :=
  ⟨h.represents.answers, fun hn _ _ => h.represents.remaps hn⟩

-- A virtual path which has been mapped twice.
theorem history_remapped : ∃ files, History [⟨"a", "x", 11⟩, ⟨"b", "x", 12⟩] files :=
  ⟨_, .allow (.allow (@History.start fun _ => none) rfl) rfl⟩

theorem refines_remapped : ∃ files, Refines [⟨"a", "x", 11⟩, ⟨"b", "x", 12⟩] files ∧
    ∀ realPath virtualPath, Remaps [⟨"a", "x", 11⟩, ⟨"b", "x", 12⟩] files realPath virtualPath := by
  have ⟨files, h⟩ := history_remapped
  have ⟨hr, hm⟩ := h.refines
  exact ⟨files, hr, hm <| by decide⟩

end Files

theorem delivered_eq_nil {w : World} {accesses : List Access} (ha : w.accesses = accesses)
    (hw : written accesses = []) : delivered w = [] := by
  rw [written, List.flatMap_eq_nil_iff] at hw
  rw [delivered, ha, written, List.flatMap_eq_nil_iff]
  exact fun access hm => hw access <| List.dropLast_subset accesses hm

theorem delivered_afterRead {w : World} {files : Files} {memories : MemPtr → LinearMemory}
    {accesses : List Access} {access : Access} (ha : w.accesses = []) :
    delivered (w.afterRead files memories (accesses ++ [access])) = written accesses := by
  have hd : (w.accesses ++ (accesses ++ [access])).dropLast = accesses := by
    rw [ha, List.nil_append, List.dropLast_concat]
  rw [delivered, afterRead, hd]

-- What is delivered is read from a stream which is open at the path of the descriptor's entry.
theorem fdRead_delivers {fd a b c : BitVec 32} {w w' : World} (ha : w.accesses = [])
    (hl : 0 < w.results.length) (hi : w.files.Intact)
    (hw : (ecsactSiWasiFdRead [.i32 fd, .i32 a, .i32 b, .i32 c] w).state = w') :
    delivered w' = [] ∨ ∃ info s pos, w.files.virtualFiles fd = some info ∧
      s ∈ w'.files.streams ∧ s.path = cStr info.realPath ∧
      delivered w' = (s.content.take s.pos).drop pos := by
  cases @fdRead_cases fd a b c w
  case inr h =>
    have ⟨e, w₁, _, h₁, hc⟩ := h
    rw [h₁] at hw
    refine .inl <| @delivered_eq_nil _ [] ?_ rfl
    cases hc
    case inl hc => rw [← hw, hc]; exact ha
    case inr hc => rw [← hw, hc]; exact ha
  case inl h =>
    have ⟨mem, hm⟩ := h
    cases ho : Files.ensureOpen fd w.files
    case error e files =>
      rw [fdRead_error hm ho] at hw
      subst hw
      exact .inl <| delivered_eq_nil ha rfl
    case ok file files =>
      cases file
      case none =>
        have ⟨accesses, memories, hn, hr⟩ := @fdRead_null mem fd a b c w.memories
        rw [hr rfl hm ho hl] at hw
        split at hw <;> subst hw
        case isTrue  => exact .inl <| (delivered_afterRead ha).trans hn
        case isFalse => exact .inl <| delivered_eq_nil (congrArg (· ++ accesses) ha) hn
      case some k =>
        have ⟨info, s, hv, hs, hc, hp⟩ := hi.of_ensureOpen ho
        have ⟨accesses, memories, hd, hr⟩ := @fdRead_ok mem fd a b c s w.memories hc
        have hk := (List.getElem?_eq_some_iff.mp hs).1
        rw [hr rfl hm ho hs hl] at hw
        subst hw
        let s' : Stream := { s with pos := s.pos + (written accesses).length }
        refine .inr ⟨info, s', s.pos, hv, ?mem, hp, ?delivered⟩
        case mem => exact List.mem_of_getElem? <| List.getElem?_set_self hk
        case delivered =>
          apply (delivered_afterRead ha).trans
          rw [List.drop_take, show s'.pos - s.pos = (written accesses).length by simp [s']]
          exact hd

namespace Files

variable {grants : List Grant} {files : Files} {fd : BitVec 32}

theorem Represents.reads {s : Stream} (h : Represents grants files) (hs : s ∈ files.streams) :
    ∃ g ∈ grants, s.Reads g := by
  have ⟨hm, g, hg, hp⟩ := h.streams s hs
  exact ⟨g, hg, hm, hp, fun hr => hp.trans <| cStr_eq hr⟩

theorem Represents.current_grant {info : VirtualFileInfo} (h : Represents grants files)
    (hv : files.virtualFiles fd = some info) :
    Current grants fd info.grant := by
  have ⟨hk, hl⟩ := h.grant_of_table hv
  refine ⟨h.grant_mem hv, hk, fun g hg he => ?_, hl⟩
  exact h.fd_inj hg (h.grant_mem hv) <| he.trans hk.symm

theorem Represents.delivers {w : World} {call : ImportCall} (h : Represents grants w.files)
    (hc : call.name = "fd_read") :
    Delivers grants (call.val 0) (call.run w).state := by
  have h' := h.served <| within_served call w
  have hr := fdRead_delivers rfl (call.fdRead_results hc w) h.intact <|
    congrArg Result.state (call.fdRead_run hc w).symm
  cases hr
  case inl hd => exact .inl hd
  case inr hr =>
    have ⟨info, s, pos, hv, hs, hp, hd⟩ := hr
    have ⟨hm, _⟩ := h'.streams s hs
    exact .inr ⟨info.grant, s, pos, h.current_grant hv, hs,
      ⟨hm, hp, fun hr => hp.trans <| cStr_eq hr⟩, hd⟩

theorem Served.sameMappings {files' : Files} (h : Served files files') : SameMappings files files' :=
  ⟨h.kept.index, h.kept.table⟩

theorem History.reads_granted (h : History grants files) :
    (∀ s ∈ files.streams, ∃ g ∈ grants, s.Reads g) ∧
    (∀ (w : World) (call : ImportCall), w.files = files → call.name = "fd_read" →
      Delivers grants (call.val 0) (call.run w).state) ∧
    ∀ (w : World) (call : ImportCall), w.files = files →
      SameMappings files (call.run w).state.files := by
  have hr := h.represents
  refine ⟨fun s => hr.reads, fun w call hw hc => ?delivers, fun w call hw => ?mappings⟩
  case delivers =>
    subst hw
    exact hr.delivers hc
  case mappings =>
    subst hw
    exact (within_served call w).sameMappings

-- A virtual path is mapped to two files, one after the other, and the guest reads from each of them.
def remapped : Files where
  disk path := if path = "a" then some [1, 2, 3, 4, 5, 6] else some [7, 8, 9, 10, 11, 12]

def reading (files : Files) : World :=
  { bufferWorld true with files := files }

def firstRead : Files :=
  ((ImportCall.fdRead 11 0 1 8).run <| reading <| remapped.allowed "a" "x").state.files

def secondRead : Files :=
  ((ImportCall.fdRead 12 0 1 8).run <| reading <|
    (allowFileReadAccess "b" "x" firstRead).state).state.files

theorem history_secondRead : History [⟨"a", "x", 11⟩, ⟨"b", "x", 12⟩] secondRead := by
  have h₁ : History [⟨"a", "x", 11⟩] (remapped.allowed "a" "x") := .allow .start rfl
  have h₂ : History [⟨"a", "x", 11⟩] firstRead :=
    @History.guest _ (reading <| remapped.allowed "a" "x") _ h₁
  have h₃ : History [⟨"a", "x", 11⟩, ⟨"b", "x", 12⟩] (allowFileReadAccess "b" "x" firstRead).state :=
    h₂.allow rfl
  exact @History.guest _ (reading (allowFileReadAccess "b" "x" firstRead).state) _ h₃

-- The second file is read on from where the guest has stopped.
theorem reads_granted_remapped : secondRead.streams.map (·.path) = ["a", "b"] ∧
    delivered ((ImportCall.fdRead 12 0 1 8).run <| reading secondRead).state = [11, 12] ∧
    (∀ s ∈ secondRead.streams, ∃ g ∈ [⟨"a", "x", 11⟩, ⟨"b", "x", 12⟩], s.Reads g) ∧
    (∀ (w : World) (call : ImportCall), w.files = secondRead → call.name = "fd_read" →
      Delivers [⟨"a", "x", 11⟩, ⟨"b", "x", 12⟩] (call.val 0) (call.run w).state) ∧
    ∀ (w : World) (call : ImportCall), w.files = secondRead →
      SameMappings secondRead (call.run w).state.files :=
  ⟨by decide, by decide, history_secondRead.reads_granted⟩

end Files
end Ecsact
