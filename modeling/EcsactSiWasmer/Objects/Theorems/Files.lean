import EcsactSiWasmer.Objects.Files
import EcsactSiWasmer.Lib.Registry

open EStateM

namespace Ecsact.Files

variable {files files' : Files} {fd : BitVec 32} {info : VirtualFileInfo} {file : FilePtr}
  {path mode : String} {content : List Byte} {s : Stream} {k n : Nat}

-- The two maps.
def registry (files : Files) : Registry String (BitVec 32) VirtualFileInfo :=
  ⟨files.virtualFiles, files.virtualFileMap⟩

-- What the functions make of the state.

def withRegistry (files : Files) (r : Registry String (BitVec 32) VirtualFileInfo) : Files :=
  { files with virtualFiles := r.table, virtualFileMap := r.index }

def withOpenedFile (files : Files) (fd : BitVec 32) (info : VirtualFileInfo)
    (file : Option FilePtr) : Files :=
  { files with
    virtualFiles := Function.update files.virtualFiles fd (some { info with openedFile := file })
  }

def addStream (files : Files) (s : Stream) : Files :=
  { files with streams := files.streams ++ [s] }

def setStream (files : Files) (k : Nat) (s : Stream) : Files :=
  { files with streams := files.streams.set k s }

theorem withOpenedFile_apply {file : Option FilePtr} {fd' : BitVec 32} :
    (files.withOpenedFile fd info file).virtualFiles fd' =
      if fd' = fd then some { info with openedFile := file } else files.virtualFiles fd' := by
  simp only [withOpenedFile, Function.update_apply]

section

theorem fopen_none (h : files.disk path = none) : fopen path mode files = .ok none files := by
  rw [fopen, bind_ok (get_apply files)]
  simp only [h]
  rfl

theorem fopen_some (h : files.disk path = some content) : fopen path mode files =
    .ok (some files.streams.length) (files.addStream ⟨path, mode, content, 0, false⟩) := by
  rw [fopen, bind_ok (get_apply files)]
  simp only [h]
  rfl

theorem stream_ok (hs : files.streams[k]? = some s) (hc : s.closed = false) :
    stream (some k) files = .ok (k, s) files := by
  simp only [stream]
  rw [bind_ok (get_apply files)]
  simp only [hs, hc]
  rfl

theorem stream_eq_ok {ks : Nat × Stream} (h : stream file files = .ok ks files') :
    files' = files ∧ file = some ks.1 ∧ files.streams[ks.1]? = some ks.2 ∧ ks.2.closed = false := by
  cases file
  case none   => cases h
  case some k =>
    simp only [stream] at h
    rw [bind_ok (get_apply files)] at h
    cases hs : files.streams[k]? <;> simp only [hs] at h
    case none   => cases h
    case some s =>
      cases hc : s.closed <;> simp only [hc] at h <;> cases h
      exact ⟨rfl, rfl, hs, hc⟩

theorem stream_eq_error {e : Fault} (h : stream file files = .error e files') : files' = files := by
  cases file
  case none   =>
    cases h
    rfl
  case some k =>
    simp only [stream] at h
    rw [bind_ok (get_apply files)] at h
    cases hs : files.streams[k]? <;> simp only [hs] at h
    case none   =>
      cases h
      rfl
    case some s =>
      cases hc : s.closed <;> simp only [hc] at h <;> cases h
      rfl

def readBytes (s : Stream) (n : Nat) : List Byte :=
  (s.content.drop s.pos).take n

theorem fread_ok (hs : files.streams[k]? = some s) (hc : s.closed = false) :
    fread n (some k) files = .ok (readBytes s n)
      (files.setStream k { s with pos := s.pos + (readBytes s n).length }) := by
  rw [fread, bind_ok (stream_ok hs hc)]
  rfl

theorem fread_null : fread n none files = .error (.undefined "null FILE*") files :=
  rfl

theorem fclose_ok (hs : files.streams[k]? = some s) (hc : s.closed = false) :
    fclose (some k) files = .ok () (files.setStream k { s with closed := true }) := by
  rw [fclose, bind_ok (stream_ok hs hc)]
  rfl

theorem fclose_null : fclose none files = .error (.undefined "null FILE*") files :=
  rfl

theorem virtualFilesAt_some (h : files.virtualFiles fd = some info) :
    virtualFilesAt fd files = .ok info files := by
  rw [virtualFilesAt, bind_ok (get_apply files)]
  simp only [h]
  rfl

theorem virtualFilesAt_none (h : files.virtualFiles fd = none) :
    virtualFilesAt fd files = .error (.exception "std::out_of_range") files := by
  rw [virtualFilesAt, bind_ok (get_apply files)]
  simp only [h]
  rfl

end

section

theorem ensureOpen_unknown (h : files.virtualFiles fd = none) :
    ensureOpen fd files = .error (.exception "std::out_of_range") files :=
  bind_error <| virtualFilesAt_none h

theorem ensureOpen_open (h : files.virtualFiles fd = some info)
    (ho : info.openedFile = some file) : ensureOpen fd files = .ok file files := by
  rw [ensureOpen, bind_ok (virtualFilesAt_some h)]
  simp only [ho]
  rfl

theorem ensureOpen_fails (h : files.virtualFiles fd = some info) (ho : info.openedFile = none)
    (hd : files.disk (cStr info.realPath) = none) :
    ensureOpen fd files = .ok none (files.withOpenedFile fd info (some none)) := by
  rw [ensureOpen, bind_ok (virtualFilesAt_some h)]
  simp only [ho]
  rw [bind_ok (fopen_none hd)]
  rfl

-- The state after a file has been opened.
def reopened (files : Files) (fd : BitVec 32) (info : VirtualFileInfo) (content : List Byte) :
    Files :=
  (files.addStream ⟨cStr info.realPath, "r", content, 0, false⟩).withOpenedFile fd info
    (some (some files.streams.length))

theorem ensureOpen_opens (h : files.virtualFiles fd = some info) (ho : info.openedFile = none)
    (hd : files.disk (cStr info.realPath) = some content) : ensureOpen fd files =
      .ok (some files.streams.length) (files.reopened fd info content) := by
  rw [ensureOpen, bind_ok (virtualFilesAt_some h)]
  simp only [ho]
  rw [bind_ok (fopen_some hd)]
  rfl

theorem close_unknown (h : files.virtualFiles fd = none) :
    close fd files = .error (.exception "std::out_of_range") files :=
  bind_error <| virtualFilesAt_none h

theorem close_closed (h : files.virtualFiles fd = some info) (ho : info.openedFile = none) :
    close fd files = .ok () files := by
  rw [close, bind_ok (virtualFilesAt_some h)]
  simp only [ho]
  rfl

theorem close_null (h : files.virtualFiles fd = some info) (ho : info.openedFile = some none) :
    close fd files = .error (.undefined "null FILE*") files := by
  rw [close, bind_ok (virtualFilesAt_some h)]
  simp only [ho]
  exact bind_error fclose_null

-- The state after a file has been closed.
def reclosed (files : Files) (fd : BitVec 32) (info : VirtualFileInfo) (k : Nat) (s : Stream) :
    Files :=
  (files.setStream k { s with closed := true }).withOpenedFile fd info none

theorem close_open (h : files.virtualFiles fd = some info) (ho : info.openedFile = some (some k))
    (hs : files.streams[k]? = some s) (hc : s.closed = false) :
    close fd files = .ok () (files.reclosed fd info k s) := by
  rw [close, bind_ok (virtualFilesAt_some h)]
  simp only [ho]
  rw [bind_ok (fclose_ok hs hc)]
  rfl

end

section

variable {realPath virtualPath : String}

theorem eraseVirtualIfExists_eq : eraseVirtualIfExists virtualPath files =
    .ok () (files.withRegistry (files.registry.erase virtualPath)) := by
  rw [eraseVirtualIfExists, bind_ok (get_apply files)]
  cases h : files.virtualFileMap virtualPath <;> simp only [Registry.erase, registry, h] <;> rfl

def newInfo (realPath virtualPath : String) (fd : BitVec 32) : VirtualFileInfo where
  virtualPath          := virtualPath
  realPath             := realPath
  pseudoFileDescriptor := fd
  fdstat               := fileFdstat

def allowed (files : Files) (realPath virtualPath : String) : Files :=
  let fd := files.lastFileDescriptor + 1
  let info := newInfo realPath virtualPath fd
  { files.withRegistry (files.registry.bind virtualPath fd info) with lastFileDescriptor := fd }

theorem allowed_virtualFileMap {v : String} :
    (files.allowed realPath virtualPath).virtualFileMap v =
      if v = virtualPath then some (files.lastFileDescriptor + 1) else files.virtualFileMap v :=
  @Registry.bind_index _ _ _ _ _ files.registry virtualPath v _
    (newInfo realPath virtualPath (files.lastFileDescriptor + 1))

theorem allowed_eq_some (h : (files.allowed realPath virtualPath).virtualFiles fd = some info) :
    fd = files.lastFileDescriptor + 1 ∧ info = newInfo realPath virtualPath fd ∨
      files.virtualFiles fd = some info := by
  have hb := Registry.bind_table.symm.trans h
  split at hb
  case isTrue he  => exact .inl ⟨he, he ▸ (Option.some_inj.mp hb).symm⟩
  case isFalse    =>
    split at hb
    case isTrue  => cases hb
    case isFalse => exact .inr hb

-- Under a new descriptor there is nothing yet.
theorem allowFileReadAccess_eq (hl : files.lastFileDescriptor ≠ BitVec.intMax 32)
    (h : files.virtualFiles (files.lastFileDescriptor + 1) = none) :
    allowFileReadAccess realPath virtualPath files =
      .ok (files.lastFileDescriptor + 1) (files.allowed realPath virtualPath) := by
  have he : (files.registry.erase virtualPath).table (files.lastFileDescriptor + 1) = none := by
    rw [Registry.erase_table]
    split
    case isTrue  => rfl
    case isFalse => exact h
  rw [allowFileReadAccess, bind_ok eraseVirtualIfExists_eq, bind_ok (get_apply _)]
  simp only [withRegistry, he]
  exact congrFun (if_neg hl) _

theorem toInt_last_succ (hl : files.lastFileDescriptor ≠ BitVec.intMax 32) :
    (files.lastFileDescriptor + 1).toInt = files.lastFileDescriptor.toInt + 1 := by
  have hm : files.lastFileDescriptor.toInt ≠ 2 ^ 31 - 1 := fun he =>
    hl <| BitVec.eq_of_toInt_eq <| he.trans <| by decide
  have hle := files.lastFileDescriptor.toInt_le
  have hge := files.lastFileDescriptor.le_toInt
  rw [BitVec.toInt_add, show (1 : BitVec 32).toInt = 1 from rfl, Int.bmod_eq_of_le] <;> omega

-- The descriptors come to an end after the entry of the virtual path has been erased.
theorem allowFileReadAccess_last (hl : files.lastFileDescriptor = BitVec.intMax 32) :
    allowFileReadAccess realPath virtualPath files =
      .error (.undefined "++last_file_descriptor")
        (files.withRegistry (files.registry.erase virtualPath)) := by
  rw [allowFileReadAccess, bind_ok eraseVirtualIfExists_eq, bind_ok (get_apply _)]
  exact congrFun (if_pos hl) _

theorem allowFileReadAccess_ne_ok (hl : files.lastFileDescriptor = BitVec.intMax 32) :
    allowFileReadAccess realPath virtualPath files ≠ .ok fd files' := by
  rw [allowFileReadAccess_last hl]
  nofun

end

-- The open streams are behind the handles which are recorded for their files, each behind one.
structure Intact (files : Files) : Prop where
  stream   : ∀ {fd info k}, files.virtualFiles fd = some info →
    info.openedFile = some (some k) →
    ∃ s, files.streams[k]? = some s ∧ s.closed = false ∧ s.path = cStr info.realPath
  distinct : ∀ {fd fd' info info' k}, files.virtualFiles fd = some info →
    files.virtualFiles fd' = some info' → info.openedFile = some (some k) →
    info'.openedFile = some (some k) → fd = fd'

namespace Intact

theorem setStream {s' : Stream} (h : files.Intact) (hs : files.streams[k]? = some s)
    (hc : s'.closed = s.closed) (hp : s'.path = s.path) : (files.setStream k s').Intact where
  stream {fd info k'} hv ho := by
    have ⟨s₁, h₁, hc₁, hp₁⟩ := h.stream hv ho
    by_cases hk : k = k'
    case neg => exact ⟨s₁, by rw [Files.setStream, List.getElem?_set_ne hk, h₁], hc₁, hp₁⟩
    case pos =>
      subst hk
      cases hs.symm.trans h₁
      have hl := (List.getElem?_eq_some_iff.mp hs).1
      exact ⟨s', List.getElem?_set_self hl, hc.trans hc₁, hp.trans hp₁⟩
  distinct := h.distinct

-- Only the handle of a stream which is not behind another one may be recorded.
theorem withOpenedFile {file : Option FilePtr} (h : files.Intact)
    (hf : ∀ k, file = some (some k) → (∃ s, files.streams[k]? = some s ∧ s.closed = false ∧
      s.path = cStr info.realPath) ∧ ∀ fd' info', files.virtualFiles fd' = some info' →
        info'.openedFile ≠ some (some k)) :
    (files.withOpenedFile fd info file).Intact where
  stream {fd' info' k} hv' ho := by
    rw [withOpenedFile_apply] at hv'
    split at hv'
    case isTrue  =>
      cases hv'
      exact (hf k ho).1
    case isFalse => exact h.stream hv' ho
  distinct {fd₁ fd₂ info₁ info₂ k} h₁ h₂ ho₁ ho₂ := by
    rw [withOpenedFile_apply] at h₁ h₂
    split at h₁ <;> split at h₂
    case isTrue.isTrue hd₁ hd₂ => exact hd₁.trans hd₂.symm
    case isTrue.isFalse =>
      cases h₁
      exact absurd ho₂ <| (hf k ho₁).2 fd₂ info₂ h₂
    case isFalse.isTrue =>
      cases h₂
      exact absurd ho₁ <| (hf k ho₂).2 fd₁ info₁ h₁
    case isFalse.isFalse => exact h.distinct h₁ h₂ ho₁ ho₂

-- Handles may be forgotten.
theorem mono (h : files.Intact) (hs : files'.streams = files.streams)
    (ht : ∀ fd info, files'.virtualFiles fd = some info →
      info.openedFile = none ∨ files.virtualFiles fd = some info) : files'.Intact := by
  have hm {fd info k} (hv : files'.virtualFiles fd = some info)
      (ho : info.openedFile = some (some k)) : files.virtualFiles fd = some info :=
    (ht fd info hv).resolve_left <| by simp [ho]
  exact ⟨fun hv ho => hs ▸ h.stream (hm hv ho) ho,
    fun h₁ h₂ ho₁ ho₂ => h.distinct (hm h₁ ho₁) (hm h₂ ho₂) ho₁ ho₂⟩

theorem addStream (h : files.Intact) : (files.addStream s).Intact where
  stream hv ho := by
    have ⟨s₁, h₁, hs⟩ := h.stream hv ho
    have hl := (List.getElem?_eq_some_iff.mp h₁).1
    exact ⟨s₁, by rw [Files.addStream, List.getElem?_append_left hl, h₁], hs⟩
  distinct := h.distinct

end Intact

-- What stays of an entry while its file is opened and closed.
def mapping (info : VirtualFileInfo) : VirtualFileInfo :=
  { info with openedFile := none }

-- The mappings are the same, and the only streams which are new read one of the mapped files.
structure Kept (files files' : Files) : Prop where
  last    : files'.lastFileDescriptor = files.lastFileDescriptor
  index   : files'.virtualFileMap = files.virtualFileMap
  table   : ∀ fd, (files'.virtualFiles fd).map mapping = (files.virtualFiles fd).map mapping
  disk    : files'.disk = files.disk
  streams : ∀ s' ∈ files'.streams, (∃ s ∈ files.streams, s'.path = s.path ∧ s'.mode = s.mode) ∨
    s'.mode = "r" ∧ ∃ fd info, files.virtualFiles fd = some info ∧ s'.path = cStr info.realPath

namespace Kept

theorem exists_entry (h : Kept files files') (hv : files'.virtualFiles fd = some info) :
    ∃ info', files.virtualFiles fd = some info' ∧ mapping info' = mapping info := by
  have ht := h.table fd
  rw [hv, Option.map_some] at ht
  exact Option.map_eq_some_iff.mp ht.symm

instance : IsPreorder Files Kept where
  refl _ := {
    last    := rfl
    index   := rfl
    table _ := rfl
    disk    := rfl
    streams := fun s hs => .inl ⟨s, hs, rfl, rfl⟩
  }
  trans files₁ files₂ files₃ h₁ h₂ := {
    last     := h₂.last.trans h₁.last
    index    := h₂.index.trans h₁.index
    table fd := (h₂.table fd).trans (h₁.table fd)
    disk     := h₂.disk.trans h₁.disk
    streams s₃ hs₃ := by
      cases h₂.streams s₃ hs₃
      case inl h =>
        have ⟨s₂, hs₂, hp, hm⟩ := h
        rw [hp, hm]
        exact h₁.streams s₂ hs₂
      case inr h =>
        have ⟨hm, fd, info, hv, hp⟩ := h
        have ⟨info', hv', he⟩ := h₁.exists_entry hv
        have hr := congrArg VirtualFileInfo.realPath he
        simp only [mapping] at hr
        exact .inr ⟨hm, fd, info', hv', hr ▸ hp⟩
  }

theorem setStream {s' : Stream} (hs : files.streams[k]? = some s) (hp : s'.path = s.path)
    (hm : s'.mode = s.mode) : Kept files (files.setStream k s') where
  last    := rfl
  index   := rfl
  table _ := rfl
  disk    := rfl
  streams s₁ hs₁ := by
    cases List.mem_or_eq_of_mem_set hs₁
    case inl h => exact .inl ⟨s₁, h, rfl, rfl⟩
    case inr h => exact .inl ⟨s, List.mem_of_getElem? hs, h ▸ hp, h ▸ hm⟩

theorem withOpenedFile {file : Option FilePtr} (hv : files.virtualFiles fd = some info) :
    Kept files (files.withOpenedFile fd info file) where
  last         := rfl
  index        := rfl
  disk         := rfl
  streams s hs := .inl ⟨s, hs, rfl, rfl⟩
  table fd'    := by
    rw [withOpenedFile_apply]
    split
    case isTrue he => rw [he, hv]; rfl
    case isFalse   => rfl

theorem addStream (hm : s.mode = "r") (hv : files.virtualFiles fd = some info)
    (hp : s.path = cStr info.realPath) : Kept files (files.addStream s) where
  last    := rfl
  index   := rfl
  table _ := rfl
  disk    := rfl
  streams s' hs' := by
    cases List.mem_append.mp hs'
    case inl h => exact .inl ⟨s', h, rfl, rfl⟩
    case inr h => exact .inr <| List.mem_singleton.mp h ▸ ⟨hm, fd, info, hv, hp⟩

end Kept

-- What the functions which serve the guests do to the state.
structure Served (files files' : Files) : Prop where
  kept   : Kept files files'
  intact : files.Intact → files'.Intact

instance : IsPreorder Files Served where
  refl files      := ⟨refl_of Kept files, id⟩
  trans _ _ _ h₁ h₂ := ⟨trans_of Kept h₁.kept h₂.kept, h₂.intact ∘ h₁.intact⟩

theorem served_fread : Within Served (fread n file) := by
  intro files
  cases h : stream file files
  case error e files' =>
    rw [fread, bind_error h, stream_eq_error h]
    exact refl_of Served files
  case ok ks files' =>
    obtain ⟨rfl, rfl, hs, hc⟩ := stream_eq_ok h
    rw [fread_ok hs hc]
    exact ⟨.setStream hs rfl rfl, fun hi => hi.setStream hs rfl rfl⟩

theorem Intact.reopened (h : files.Intact) : (files.reopened fd info content).Intact := by
  refine h.addStream.withOpenedFile fun k hk => ?_
  cases hk
  constructor
  case left => exact ⟨_, List.getElem?_concat_length, rfl, rfl⟩
  case right =>
    intro fd' info' hv ho
    have ⟨s, hs, _⟩ := h.stream hv ho
    exact absurd (List.getElem?_eq_some_iff.mp hs).1 (lt_irrefl _)

theorem served_ensureOpen : Within Served (ensureOpen fd) := by
  intro files
  cases hv : files.virtualFiles fd
  case none =>
    rw [ensureOpen_unknown hv]
    exact refl_of Served files
  case some info =>
    cases ho : info.openedFile
    case some file =>
      rw [ensureOpen_open hv ho]
      exact refl_of Served files
    case none =>
      cases hd : files.disk (cStr info.realPath)
      case none =>
        rw [ensureOpen_fails hv ho hd]
        exact ⟨.withOpenedFile hv, fun hi => hi.withOpenedFile nofun⟩
      case some content =>
        rw [ensureOpen_opens hv ho hd]
        let s : Stream := ⟨cStr info.realPath, "r", content, 0, false⟩
        have ha : Kept files (files.addStream s) := .addStream rfl hv rfl
        exact ⟨trans_of Kept ha <| .withOpenedFile hv, Intact.reopened⟩

-- What is opened is what is recorded.
theorem ensureOpen_eq_ok (h : ensureOpen fd files = .ok file files') :
    ∃ info, files.virtualFiles fd = some info ∧
      files'.virtualFiles fd = some { info with openedFile := some file } := by
  cases hv : files.virtualFiles fd
  case none =>
    rw [ensureOpen_unknown hv] at h
    cases h
  case some info =>
    refine ⟨info, rfl, ?_⟩
    cases ho : info.openedFile
    case some file' =>
      rw [ensureOpen_open hv ho] at h
      cases h
      rw [hv, ← ho]
    case none =>
      cases hd : files.disk (cStr info.realPath)
      case none =>
        rw [ensureOpen_fails hv ho hd] at h
        cases h
        rw [withOpenedFile_apply, if_pos rfl]
      case some content =>
        rw [ensureOpen_opens hv ho hd] at h
        cases h
        rw [reopened, withOpenedFile_apply, if_pos rfl]

theorem Intact.of_ensureOpen (h : files.Intact) (ho : ensureOpen fd files = .ok (some k) files') :
    ∃ info s, files.virtualFiles fd = some info ∧ files'.streams[k]? = some s ∧
      s.closed = false ∧ s.path = cStr info.realPath := by
  have ⟨info, hv, hv'⟩ := ensureOpen_eq_ok ho
  have ⟨s, hs⟩ := ((served_ensureOpen.of_ok ho).intact h).stream hv' rfl
  exact ⟨info, s, hv, hs⟩

-- No other handle is that of the stream which is closed.
theorem Intact.reclosed (h : files.Intact) (hv : files.virtualFiles fd = some info)
    (ho : info.openedFile = some (some k)) : (files.reclosed fd info k s).Intact where
  stream {fd' info' k'} hv' ho' := by
    rw [Files.reclosed, withOpenedFile_apply] at hv'
    split at hv'
    case isTrue =>
      cases hv'
      cases ho'
    case isFalse hn =>
      have ⟨s', hs', h'⟩ := h.stream hv' ho'
      have hk : k ≠ k' := fun he => hn <| h.distinct hv' hv ho' (he ▸ ho)
      exact ⟨s', (List.getElem?_set_ne hk).trans hs', h'⟩
  distinct {fd₁ fd₂ info₁ info₂ k'} h₁ h₂ ho₁ ho₂ := by
    rw [Files.reclosed, withOpenedFile_apply] at h₁ h₂
    split at h₁
    case isTrue =>
      cases h₁
      cases ho₁
    case isFalse =>
      split at h₂
      case isTrue =>
        cases h₂
        cases ho₂
      case isFalse => exact h.distinct h₁ h₂ ho₁ ho₂

theorem served_close : Within Served (close fd) := by
  intro files
  cases hv : files.virtualFiles fd
  case none =>
    rw [close_unknown hv]
    exact refl_of Served files
  case some info =>
    cases ho : info.openedFile
    case none =>
      rw [close_closed hv ho]
      exact refl_of Served files
    case some file =>
      cases hs : stream file files
      case error e files' =>
        have hc : close fd files = .error e files := by
          rw [close, bind_ok (virtualFilesAt_some hv)]
          simp only [ho]
          rw [fclose]
          exact bind_error <| bind_error <| hs.trans <| congrArg _ (stream_eq_error hs)
        rw [hc]
        exact refl_of Served files
      case ok ks files' =>
        obtain ⟨rfl, rfl, hk, hc⟩ := stream_eq_ok hs
        rw [close_open hv ho hk hc]
        have hm : Kept files' (files'.setStream ks.1 { ks.2 with closed := true }) :=
          .setStream hk rfl rfl
        exact ⟨trans_of Kept hm <| .withOpenedFile hv, fun hi => hi.reclosed hv ho⟩

end Ecsact.Files
