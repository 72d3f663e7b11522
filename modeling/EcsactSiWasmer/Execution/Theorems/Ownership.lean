import EcsactSiWasmer.Execution.Ownership
import EcsactSiWasmer.Lib.Along
import EcsactSiWasmer.Objects.Theorems.Files

open EStateM

namespace Ecsact

namespace Files

variable {files files' : Files} {fd fd' : BitVec 32} {info : VirtualFileInfo} {k k' : Nat}
  {s : Stream} {content : List Byte} {realPath virtualPath : String}

theorem reopened_length :
    (files.reopened fd info content).streams.length = files.streams.length + 1 :=
  List.length_append

theorem reclosed_length :
    (files.reclosed fd info k s).streams.length = files.streams.length :=
  List.length_set

-- What the functions make of the records.

theorem records_withOpenedFile {file : Option FilePtr} :
    (files.withOpenedFile fd info file).Records fd' k ↔
      if fd' = fd then file = some (some k) else files.Records fd' k := by
  simp only [Records, withOpenedFile_apply]
  split
  case isFalse => rfl
  case isTrue  => simp

theorem records_reopened (hv : files.virtualFiles fd = some info) (ho : info.openedFile = none) :
    (files.reopened fd info content).Records fd' k ↔
      files.Records fd' k ∨ fd' = fd ∧ k = files.streams.length := by
  rw [reopened, records_withOpenedFile]
  split
  case isFalse hn => simp [Records, addStream, hn]
  case isTrue he  => simp [Records, he, hv, ho, eq_comm]

theorem records_reclosed (hi : files.Intact) (hv : files.virtualFiles fd = some info)
    (ho : info.openedFile = some (some k)) :
    (files.reclosed fd info k s).Records fd' k' ↔ files.Records fd' k' ∧ k' ≠ k := by
  rw [reclosed, records_withOpenedFile]
  split
  case isTrue he => simp [Records, he, hv, ho, eq_comm]
  case isFalse hn =>
    refine (and_iff_left_of_imp ?_).symm
    rintro ⟨info', hv', ho'⟩ hk
    exact hn <| hi.distinct hv' hv (hk ▸ ho') ho

-- A virtual path whose file is not open has no record to lose.
theorem records_erase
    (h : ∀ fd info, files.virtualFileMap virtualPath = some fd → files.virtualFiles fd = some info →
      info.openedFile = none) :
    (files.withRegistry (files.registry.erase virtualPath)).Records fd k ↔ files.Records fd k := by
  have ht := @Registry.erase_table _ _ _ _ _ files.registry virtualPath fd
  simp only [Records, withRegistry, ht]
  split
  case isFalse   => rfl
  case isTrue he =>
    constructor
    case mp =>
      rintro ⟨_, hv, _⟩
      cases hv
    case mpr =>
      rintro ⟨info, hv, ho⟩
      cases (h fd info he hv).symm.trans ho

theorem records_allowed (hu : files.virtualFiles (files.lastFileDescriptor + 1) = none)
    (h : ∀ fd info, files.virtualFileMap virtualPath = some fd → files.virtualFiles fd = some info →
      info.openedFile = none) :
    (files.allowed realPath virtualPath).Records fd k ↔ files.Records fd k := by
  have ht := @Registry.bind_table _ _ _ _ _ files.registry virtualPath
    (files.lastFileDescriptor + 1) fd
    (newInfo realPath virtualPath (files.lastFileDescriptor + 1))
  by_cases he : fd = files.lastFileDescriptor + 1
  case neg =>
    rw [← records_erase h]
    simp only [Records, withRegistry, Registry.erase_table]
    rw [if_neg he] at ht
    exact exists_congr fun _ => and_congr_left fun _ => by rw [← ht]; rfl
  case pos =>
    rw [if_pos he] at ht
    constructor
    case mp =>
      rintro ⟨info, hv, ho⟩
      cases ht.symm.trans hv
      cases ho
    case mpr =>
      rintro ⟨info, hv, _⟩
      cases hu.symm.trans <| he ▸ hv

-- The path is mapped again, or there is no descriptor left for it.
theorem allow_cases (hu : files.lastFileDescriptor ≠ BitVec.intMax 32 →
    files.virtualFiles (files.lastFileDescriptor + 1) = none) :
    (FileOp.allow realPath virtualPath).call files = .error (.undefined "++last_file_descriptor")
        (files.withRegistry (files.registry.erase virtualPath)) ∨
      files.virtualFiles (files.lastFileDescriptor + 1) = none ∧
      files.lastFileDescriptor ≠ BitVec.intMax 32 ∧
      (FileOp.allow realPath virtualPath).call files =
        .ok none (files.allowed realPath virtualPath) := by
  by_cases hl : files.lastFileDescriptor = BitVec.intMax 32
  case pos => exact .inl <| bind_error <| allowFileReadAccess_last hl
  case neg => exact .inr ⟨hu hl, hl, bind_ok <| allowFileReadAccess_eq hl <| hu hl⟩

-- Either way, the record of the file which was open for the path is gone.
theorem not_records_erase (hi : files.Intact) (hm : files.virtualFileMap virtualPath = some fd)
    (hr : files.Records fd k) :
    ¬(files.withRegistry (files.registry.erase virtualPath)).Records fd' k := by
  intro ⟨info, hv, ho⟩
  have ⟨info', hv', ho'⟩ := hr
  have hv := Registry.erase_table.symm.trans hv
  split at hv
  case isTrue     => cases hv
  case isFalse hn => exact hn <| hi.distinct hv' hv ho' ho ▸ hm

theorem not_records_allowed (hi : files.Intact) (hm : files.virtualFileMap virtualPath = some fd)
    (hr : files.Records fd k) : ¬(files.allowed realPath virtualPath).Records fd' k := by
  intro ⟨info, hv, ho⟩
  have hv := Registry.bind_table.symm.trans hv
  split at hv
  case isTrue =>
    cases hv
    cases ho
  case isFalse =>
    exact not_records_erase hi hm hr ⟨info, Registry.erase_table.trans hv, ho⟩

end Files

namespace Ownership

variable {o o' : Ownership} {op : FileOp} {fd : BitVec 32} {info : VirtualFileInfo} {k : Nat}
  {s : Stream} {content : List Byte}

namespace Accounted

-- Only the streams, the records and what has been closed count.
theorem congr (h : o.Accounted) (hs : o'.files.streams = o.files.streams)
    (hr : ∀ fd k, o'.files.Records fd k ↔ o.files.Records fd k) (hf : o'.fclosed = o.fclosed) :
    o'.Accounted where
  once k hk := by
    simp only [hr, hf]
    exact h.once k <| hs ▸ hk
  closed k s hk := by
    rw [hf]
    exact h.closed k s <| hs ▸ hk
  known file hm := by
    rw [hs]
    exact h.known file <| hf ▸ hm

theorem reopened (h : o.Accounted) (hi : o.files.Intact) (hv : o.files.virtualFiles fd = some info)
    (ho : info.openedFile = none) : Accounted ⟨o.files.reopened fd info content, o.fclosed⟩ where
  once k hk := by
    have hn {fd'} : ¬o.files.Records fd' o.files.streams.length := by
      rintro ⟨info', hv', ho'⟩
      obtain ⟨s, hs, _⟩ := hi.stream hv' ho'
      exact lt_irrefl _ (List.getElem?_eq_some_iff.mp hs).1
    simp only [Files.records_reopened hv ho]
    by_cases he : k = o.files.streams.length
    case neg =>
      simp only [he, and_false, or_false]
      rw [Files.reopened_length] at hk
      exact h.once k <| lt_of_le_of_ne (Nat.le_of_lt_succ hk) he
    case pos =>
      subst he
      refine .inl ⟨⟨fd, .inr ⟨rfl, rfl⟩, fun fd' hr => (hr.resolve_left hn).1⟩, ?_⟩
      refine List.count_eq_zero.mpr fun hm => ?_
      obtain ⟨k, hl, he⟩ := h.known _ hm
      exact absurd hl <| (Option.some_inj.mp he) ▸ lt_irrefl _
  closed k s hs := by
    rw [Files.reopened, Files.withOpenedFile, Files.addStream, List.getElem?_append] at hs
    split at hs
    case isTrue     => exact h.closed k s hs
    case isFalse hl =>
      rw [List.getElem?_singleton] at hs
      split at hs
      case isFalse => cases hs
      case isTrue  =>
        cases hs
        refine ⟨(absurd · Bool.false_ne_true), fun hm => ?_⟩
        obtain ⟨k', hl', he⟩ := h.known _ hm
        exact absurd hl' <| (Option.some_inj.mp he) ▸ hl
  known file hm := by
    obtain ⟨k, hl, he⟩ := h.known file hm
    refine ⟨k, ?_, he⟩
    rw [Files.reopened_length]
    exact Nat.lt_succ_of_lt hl

theorem reclosed (h : o.Accounted) (hi : o.files.Intact) (hv : o.files.virtualFiles fd = some info)
    (ho : info.openedFile = some (some k)) (hs : o.files.streams[k]? = some s) :
    Accounted ⟨o.files.reclosed fd info k s, o.fclosed ++ [some k]⟩ where
  once k' hk' := by
    have hl : k' < o.files.streams.length := Files.reclosed_length ▸ hk'
    have hr : o.files.Records fd k := ⟨info, hv, ho⟩
    simp only [Files.records_reclosed hi hv ho, List.count_append]
    by_cases he : k' = k
    case neg =>
      have hc : List.count (some k') [some k] = 0 := by simp [Ne.symm he]
      simp only [ne_eq, he, hc, and_true, Nat.add_zero, not_false_eq_true]
      exact h.once k' hl
    case pos =>
      subst he
      have hc := (h.once k' hl).resolve_right fun hn => hn.1 fd hr
      refine .inr ⟨fun _ hn => hn.2 rfl, ?_⟩
      rw [hc.2, List.count_singleton_self]
  closed k' s' hs' := by
    have hs' : (o.files.streams.set k { s with closed := true })[k']? = some s' := hs'
    rw [List.mem_append, List.mem_singleton, Option.some_inj]
    by_cases he : k' = k
    case pos =>
      rw [he, List.getElem?_set_self (List.getElem?_eq_some_iff.mp hs).1] at hs'
      cases hs'
      exact iff_of_true rfl <| .inr he
    case neg =>
      rw [List.getElem?_set_ne (Ne.symm he)] at hs'
      rw [or_iff_left he]
      exact h.closed k' s' hs'
  known file hm := by
    rw [Files.reclosed_length]
    cases List.mem_append.mp hm
    case inl hm => exact h.known file hm
    case inr hm =>
      exact ⟨k, (List.getElem?_eq_some_iff.mp hs).1, List.mem_singleton.mp hm⟩

end Accounted

-- What the functions keep as long as no open file is dropped.
structure Proper (o : Ownership) : Prop where
  accounted : o.Accounted
  intact    : o.files.Intact
  nonNull   : ∀ {fd info}, o.files.virtualFiles fd = some info → info.openedFile ≠ some none
  bounded   : ∀ {fd info}, o.files.virtualFiles fd = some info →
    fd.toInt ≤ o.files.lastFileDescriptor.toInt

-- The cases in which a call ends.

theorem Proper.of_ok {file : Option FilePtr} {files : Files}
    (hc : op.call o.files = .ok file files)
    (hp : Proper ⟨files, o.fclosed ++ op.passed o.files⟩)
    (hf : file = none ∨ ∃ k s, file = some (some k) ∧ files.streams[k]? = some s ∧
      s.closed = false) : o.Keeps op ∧ (o.next op).Proper := by
  have hn : (o.next op).Proper := by
    rw [next, hc]
    exact hp
  refine ⟨⟨hn.accounted, fun e files' he => ?faults, fun file' files' he => ?files⟩, hn⟩
  case faults =>
    rw [hc] at he
    cases he
  case files =>
    rw [hc] at he
    cases he
    have ⟨k, s, he, hs⟩ := hf.resolve_left nofun
    exact ⟨k, s, Option.some_inj.mp he, hs⟩

theorem Proper.of_error {e : Fault} {files : Files} (hc : op.call o.files = .error e files)
    (hp : Proper ⟨files, o.fclosed ++ op.passed o.files⟩) (he : e ∉ misuses) :
    o.Keeps op ∧ (o.next op).Proper := by
  have hn : (o.next op).Proper := by
    rw [next, hc]
    exact hp
  refine ⟨⟨hn.accounted, fun e' files' h => ?faults, fun file files' h => ?files⟩, hn⟩
  case faults =>
    rw [hc] at h
    cases h
    exact he
  case files =>
    rw [hc] at h
    cases h

namespace Proper

variable {realPath virtualPath : String}

theorem start {disk : String → Option (List Byte)} : Proper ⟨{ disk := disk }, []⟩ where
  accounted := ⟨nofun, nofun, nofun⟩
  intact    := ⟨nofun, nofun⟩
  nonNull   := nofun
  bounded   := nofun

-- There is nothing under the next descriptor.
theorem unused (h : o.Proper) (hl : o.files.lastFileDescriptor ≠ BitVec.intMax 32) :
    o.files.virtualFiles (o.files.lastFileDescriptor + 1) = none := by
  cases hv : o.files.virtualFiles (o.files.lastFileDescriptor + 1)
  case none      => rfl
  case some info =>
    have hb := h.bounded hv
    rw [Files.toInt_last_succ hl] at hb
    omega

-- The records are what they were, but for entries in which there are none.
theorem congr (h : o.Proper) (hs : o'.files.streams = o.files.streams)
    (hr : ∀ fd k, o'.files.Records fd k ↔ o.files.Records fd k) (hf : o'.fclosed = o.fclosed)
    (ht : ∀ fd info, o'.files.virtualFiles fd = some info →
      info.openedFile = none ∨ o.files.virtualFiles fd = some info)
    (hb : ∀ fd info, o'.files.virtualFiles fd = some info →
      fd.toInt ≤ o'.files.lastFileDescriptor.toInt) : o'.Proper where
  accounted := h.accounted.congr hs hr hf
  intact    := h.intact.mono hs ht
  nonNull {fd info} hv hn := by
    cases ht fd info hv
    case inl ho => cases ho.symm.trans hn
    case inr hv => exact h.nonNull hv hn
  bounded {fd info} hv := hb fd info hv

-- The call returns, or there are no descriptors left and the path's entry is erased all the same.
theorem allow (h : o.Proper) (hn : ¬FileOp.DropsOpen o.files (.allow realPath virtualPath)) :
    o.Keeps (.allow realPath virtualPath) ∧ (o.next (.allow realPath virtualPath)).Proper := by
  have ho : ∀ fd info, o.files.virtualFileMap virtualPath = some fd →
      o.files.virtualFiles fd = some info → info.openedFile = none := fun fd info hi hv =>
    Option.eq_none_iff_forall_ne_some.mpr fun file ho => hn ⟨fd, info, file, hi, hv, ho⟩
  cases @Files.allow_cases o.files realPath virtualPath h.unused
  case inl hc =>
    have ht {fd info} (hv : (o.files.registry.erase virtualPath).table fd = some info) :
        o.files.virtualFiles fd = some info := by
      rw [Registry.erase_table] at hv
      split at hv
      case isTrue  => cases hv
      case isFalse => exact hv
    refine of_error hc ?_ (by decide)
    exact h.congr rfl (fun _ _ => Files.records_erase ho) (List.append_nil _)
      (fun _ _ hv => .inr <| ht hv) fun _ _ hv => h.bounded <| ht hv
  case inr hc =>
    have ⟨hu, hl, hc⟩ := hc
    have hs := Files.toInt_last_succ hl
    refine of_ok hc ?_ <| .inl rfl
    refine h.congr rfl (fun _ _ => Files.records_allowed hu ho) (List.append_nil _)
      (fun fd info hv => ?openedFile) fun fd info hv => ?bounded
    case openedFile =>
      cases Files.allowed_eq_some hv
      case inl he => exact .inl <| congrArg VirtualFileInfo.openedFile he.2
      case inr hv => exact .inr hv
    case bounded =>
      show fd.toInt ≤ (o.files.lastFileDescriptor + 1).toInt
      cases Files.allowed_eq_some hv
      case inl he => rw [he.1]
      case inr hv => exact hs ▸ (h.bounded hv).trans (Int.le_add_one le_rfl)

-- An entry gets another file, or none.
theorem withOpenedFile {files : Files} {fclosed : List FilePtr} {file : Option FilePtr}
    (h : o.Proper) (hv : o.files.virtualFiles fd = some info) (hf : file ≠ some none)
    (ht : files.virtualFiles = o.files.virtualFiles)
    (hl : files.lastFileDescriptor = o.files.lastFileDescriptor)
    (ha : Accounted ⟨files.withOpenedFile fd info file, fclosed⟩)
    (hi : (files.withOpenedFile fd info file).Intact) :
    Proper ⟨files.withOpenedFile fd info file, fclosed⟩ where
  accounted := ha
  intact    := hi
  nonNull {fd' info'} hv' hn := by
    rw [Files.withOpenedFile_apply, ht] at hv'
    split at hv'
    case isTrue  =>
      cases hv'
      exact hf hn
    case isFalse => exact h.nonNull hv' hn
  bounded {fd' info'} hv' := by
    rw [Files.withOpenedFile_apply, ht] at hv'
    show fd'.toInt ≤ files.lastFileDescriptor.toInt
    rw [hl]
    split at hv'
    case isTrue he => exact he ▸ h.bounded hv
    case isFalse   => exact h.bounded hv'

theorem reopened (h : o.Proper) (hv : o.files.virtualFiles fd = some info)
    (ho : info.openedFile = none) : Proper ⟨o.files.reopened fd info content, o.fclosed⟩ :=
  h.withOpenedFile hv nofun rfl rfl (h.accounted.reopened h.intact hv ho) h.intact.reopened

theorem reclosed (h : o.Proper) (hv : o.files.virtualFiles fd = some info)
    (ho : info.openedFile = some (some k)) (hs : o.files.streams[k]? = some s) :
    Proper ⟨o.files.reclosed fd info k s, o.fclosed ++ [some k]⟩ :=
  h.withOpenedFile hv nofun rfl rfl (h.accounted.reclosed h.intact hv ho hs)
    (h.intact.reclosed hv ho)

-- What is recorded is an open file.
theorem exists_stream {file : FilePtr} (h : o.Proper) (hv : o.files.virtualFiles fd = some info)
    (ho : info.openedFile = some file) :
    ∃ k s, file = some k ∧ o.files.streams[k]? = some s ∧ s.closed = false := by
  have ⟨k, hk⟩ := Option.ne_none_iff_exists'.mp fun hf : file = none => h.nonNull hv <| hf ▸ ho
  subst hk
  have ⟨s, hs, hc, _⟩ := h.intact.stream hv ho
  exact ⟨k, s, rfl, hs, hc⟩

theorem ensureOpen {disk : String → List Byte} (h : o.Proper) :
    o.Keeps (.ensureOpen fd disk) ∧ (o.next (.ensureOpen fd disk)).Proper := by
  let files : Files := { o.files with disk := fun path => some (disk path) }
  have hd : Proper ⟨files, o.fclosed ++ []⟩ :=
    h.congr rfl (fun _ _ => Iff.rfl) (List.append_nil _) (fun _ _ => .inr) fun _ _ => h.bounded
  cases hv : files.virtualFiles fd
  case none =>
    have hc : (FileOp.ensureOpen fd disk).call o.files = _ :=
      bind_error (s := files) <| Files.ensureOpen_unknown hv
    exact of_error hc hd (by decide)
  case some info =>
    cases ho : info.openedFile
    case none =>
      have hc : (FileOp.ensureOpen fd disk).call o.files = _ :=
        bind_ok (s := files) <| Files.ensureOpen_opens hv ho rfl
      exact of_ok hc (hd.reopened hv ho) <|
        .inr ⟨_, _, rfl, List.getElem?_concat_length, rfl⟩
    case some file =>
      have ⟨k, s, hk, hs⟩ := hd.exists_stream hv ho
      have hc : (FileOp.ensureOpen fd disk).call o.files = _ :=
        bind_ok (s := files) <| Files.ensureOpen_open hv ho
      exact of_ok hc hd <| .inr ⟨k, s, congrArg some hk, hs⟩

theorem close (h : o.Proper) : o.Keeps (.close fd) ∧ (o.next (.close fd)).Proper := by
  cases hv : o.files.virtualFiles fd
  case none =>
    have hc : (FileOp.close fd).call o.files = _ := bind_error <| Files.close_unknown hv
    refine of_error hc ?_ (by decide)
    rw [FileOp.passed, hv]
    exact (List.append_nil o.fclosed).symm ▸ h
  case some info =>
    cases ho : info.openedFile
    case none =>
      have hc : (FileOp.close fd).call o.files = _ := bind_ok <| Files.close_closed hv ho
      refine of_ok hc ?_ <| .inl rfl
      rw [FileOp.passed, hv, Option.bind_some, ho]
      exact (List.append_nil o.fclosed).symm ▸ h
    case some file =>
      obtain ⟨k, s, rfl, hs, hcl⟩ := h.exists_stream hv ho
      have hc : (FileOp.close fd).call o.files = _ := bind_ok <| Files.close_open hv ho hs hcl
      refine of_ok hc ?_ <| .inl rfl
      rw [FileOp.passed, hv, Option.bind_some, ho]
      exact h.reclosed hv ho hs

theorem step (h : o.Proper) (hn : ¬op.DropsOpen o.files) : o.Keeps op ∧ (o.next op).Proper := by
  cases op
  case allow      => exact h.allow hn
  case ensureOpen => exact h.ensureOpen
  case close      => exact h.close

end Proper

-- The stream of the entry which is erased has no record any more, and has not been closed.
theorem not_keeps (h : o.Proper) (hd : op.DropsOpen o.files) : ¬o.Keeps op := by
  cases op
  case ensureOpen => cases hd
  case close      => cases hd
  case allow realPath virtualPath =>
    have ⟨fd, info, file, hi, hv, ho⟩ := hd
    obtain ⟨k, s, rfl, hs, _⟩ := h.exists_stream hv ho
    have hk := (List.getElem?_eq_some_iff.mp hs).1
    have hc := (h.accounted.once k hk).resolve_right fun hn => hn.1 fd ⟨info, hv, ho⟩
    have lost {files} (hf : (o.next (.allow realPath virtualPath)).files = files)
        (hl : files.streams = o.files.streams) (hr : ∀ fd', ¬files.Records fd' k) :
        ¬o.Keeps (.allow realPath virtualPath) := by
      intro ha
      cases ha.accounted.once k <| by rwa [hf, hl]
      case inl hn =>
        have ⟨fd', hn, _⟩ := hn.1
        exact hr fd' <| hf ▸ hn
      case inr hn =>
        have hn : List.count (some k) (o.fclosed ++ []) = 1 := hn.2
        rw [List.append_nil, hc.2] at hn
        cases hn
    have hr : o.files.Records fd k := ⟨info, hv, ho⟩
    cases @Files.allow_cases o.files realPath virtualPath h.unused
    case inl ha =>
      exact lost (congrArg Result.state ha) rfl fun _ => Files.not_records_erase h.intact hi hr
    case inr ha =>
      exact lost (congrArg Result.state ha.2.2) rfl fun _ =>
        Files.not_records_allowed h.intact hi hr

theorem along_keeps_iff {disk : String → Option (List Byte)} {ops : List FileOp} :
    ops.Along next Keeps ⟨{ disk := disk }, []⟩ ↔
      ops.Along next (fun o op => ¬op.DropsOpen o.files) ⟨{ disk := disk }, []⟩ := by
  refine List.Along.iff_of_invariant (I := Proper) (A := fun _ => True) .start (fun _ _ => trivial)
    (fun o op h _ hn => (h.step hn).2) fun o op h _ => ?_
  exact ⟨fun hk hd => not_keeps h hd hk, fun hn => (h.step hn).1⟩

-- The host maps a virtual path anew while a guest has the file open.
theorem not_along_keeps_remapped :
    ¬[.allow "a" "x", .ensureOpen 11 fun _ => [], .allow "b" "x"].Along next Keeps
      ⟨{ disk := fun _ => none }, []⟩ := by
  intro h
  have hn : ¬FileOp.DropsOpen { disk := fun _ => none } (.allow "a" "x") := by
    rintro ⟨_, _, _, hm, _⟩
    cases hm
  refine not_keeps (Proper.start.allow hn).2.ensureOpen.2 ?_ h.2.2.1
  exact ⟨11, _, _, rfl, rfl, rfl⟩

end Ownership
end Ecsact
