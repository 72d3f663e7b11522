import EcsactSiWasmer.Execution.Streaming
import EcsactSiWasmer.Execution.Theorems.Sharing
import EcsactSiWasmer.Imports.Theorems.Iovecs

open EStateM Ecsact.World Ecsact.CallMem

namespace Ecsact

namespace Files.Shows

variable {fd fd' : BitVec 32} {path : String} {files files' : Files} {info : VirtualFileInfo}
  {opened : Option (Option Stream)} {file : Option FilePtr} {k : Nat} {s : Stream}

-- What concerns other descriptors leaves alone what a descriptor stands for.

theorem of_table (h : Shows fd path files opened)
    (hv : files'.virtualFiles fd = files.virtualFiles fd) 
    (hs : ∀ info k s, files.virtualFiles fd = some info → info.openedFile = some (some k) →
      files.streams[k]? = some s → files'.streams[k]? = some s) : Shows fd path files' opened := by
  cases h
  case closed h hp ho         => exact .closed (hv.trans h) hp ho
  case failed h hp ho         => exact .failed (hv.trans h) hp ho
  case stream h hp ho hk hc   => exact .stream (hv.trans h) hp ho (hs _ _ _ h ho hk) hc

theorem withOpenedFile (h : Shows fd path files opened) (hf : fd ≠ fd') :
    Shows fd path (files.withOpenedFile fd' info file) opened :=
  h.of_table (withOpenedFile_apply.trans <| if_neg hf) fun _ _ _ _ _ => id

theorem addStream (h : Shows fd path files opened) : Shows fd path (files.addStream s) opened :=
  h.of_table rfl fun _ _ _ _ _ hs => by
    rw [Files.addStream, List.getElem?_append_left (List.getElem?_eq_some_iff.mp hs).1, hs]

theorem setStream (h : Shows fd path files opened) (hi : files.Intact) (hf : fd ≠ fd')
    (hv : files.virtualFiles fd' = some info) (ho : info.openedFile = some (some k)) :
    Shows fd path (files.setStream k s) opened :=
  h.of_table rfl fun _ k' _ hv' ho' hs => by
    have hk : k ≠ k' := fun he => hf <| hi.distinct hv' hv (he ▸ ho') ho
    rw [Files.setStream, List.getElem?_set_ne hk, hs]

theorem of_ensureOpen (h : Shows fd path files opened) (hf : fd ≠ fd') :
    Shows fd path (Files.ensureOpen fd' files).state opened := by
  cases hv : files.virtualFiles fd'
  case none      => rwa [ensureOpen_unknown hv]
  case some info =>
    cases ho : info.openedFile
    case some file => rwa [ensureOpen_open hv ho]
    case none      =>
      cases hd : files.disk (cStr info.realPath)
      case none         =>
        rw [ensureOpen_fails hv ho hd]
        exact h.withOpenedFile hf
      case some content =>
        rw [ensureOpen_opens hv ho hd]
        exact h.addStream.withOpenedFile hf

theorem of_close (h : Shows fd path files opened) (hi : files.Intact) (hf : fd ≠ fd') :
    Shows fd path (Files.close fd' files).state opened := by
  cases hv : files.virtualFiles fd'
  case none      => rwa [close_unknown hv]
  case some info =>
    cases ho : info.openedFile
    case none      => rwa [close_closed hv ho]
    case some file =>
      cases file
      case none   => rwa [close_null hv ho]
      case some k =>
        have ⟨s, hs, hc, _⟩ := hi.stream hv ho
        rw [close_open hv ho hs hc]
        exact (h.setStream hi hf hv ho).withOpenedFile hf

theorem of_fdRead {w : World} {a b c : BitVec 32} (h : Shows fd path w.files opened)
    (hi : w.files.Intact) (hf : fd ≠ fd') (hl : 0 < w.results.length) :
    Shows fd path (ecsactSiWasiFdRead [.i32 fd', .i32 a, .i32 b, .i32 c] w).state.files opened := by
  cases @fdRead_cases fd' a b c w
  case inr hm =>
    have ⟨e, w', _, he, hw⟩ := hm
    rw [he]
    cases hw
    case inl hw => exact hw ▸ h
    case inr hw => exact hw ▸ h
  case inl hm =>
    have ⟨mem, hm⟩ := hm
    have ho' := h.of_ensureOpen hf
    cases ho : Files.ensureOpen fd' w.files <;> rw [ho] at ho'
    case error e files =>
      rw [fdRead_error hm ho]
      exact ho'
    case ok file files =>
      cases file
      case none =>
        have ⟨accesses, memories, _, hr⟩ := @fdRead_null mem fd' a b c w.memories
        rw [hr rfl hm ho hl]
        split <;> exact ho'
      case some k =>
        have ⟨info, s, _, hs, hc, _⟩ := hi.of_ensureOpen ho
        have ⟨info, _, hv⟩ := ensureOpen_eq_ok ho
        have ⟨accesses, memories, _, hr⟩ := @fdRead_ok mem fd' a b c s w.memories hc
        rw [hr rfl hm ho hs hl]
        exact ho'.setStream ((served_ensureOpen.of_ok ho).intact hi) hf hv rfl

theorem of_fdClose {w : World} (h : Shows fd path w.files opened) (hi : w.files.Intact)
    (hf : fd ≠ fd') (hl : 0 < w.results.length) :
    Shows fd path (ecsactSiWasiFdClose [.i32 fd'] w).state.files opened := by
  cases @trace_cases w "fd_close"
  case inr ht =>
    have ⟨e, _, ht⟩ := ht
    rwa [fdClose_refused ht]
  case inl ht =>
    by_cases hs : IsStdio fd'
    case pos => rwa [fdClose_stdio ht hs hl]
    case neg =>
      have hc' := h.of_close hi hf
      cases hc : Files.close fd' w.files <;> rw [hc] at hc'
      case ok    => rwa [fdClose_ok ht hs hc hl]
      case error => rwa [fdClose_error ht hs hc]

theorem of_other {w : World} {call : ImportCall} (h : Shows fd path w.files opened)
    (hi : w.files.Intact)
    (hc : ¬((call.name = "fd_read" ∨ call.name = "fd_close") ∧ call.val 0 = fd)) :
    Shows fd path (call.run w).state.files opened := by
  by_cases hr : call.name = "fd_read"
  case pos =>
    rw [call.fdRead_run hr]
    exact of_fdRead (w := call.enter w) h hi (fun hf => hc ⟨.inl hr, hf.symm⟩)
      (call.fdRead_results hr w)
  case neg =>
    by_cases hn : call.name = "fd_close"
    case pos =>
      rw [call.fdClose_run hn]
      exact of_fdClose (w := call.enter w) h hi (fun hf => hc ⟨.inr hn, hf.symm⟩)
        (call.fdClose_results hn w)
    case neg =>
      have hk : (call.run w).state.files = w.files :=
        fileless_files.callback call.mem hr hn (call.enter w)
      exact hk ▸ h

end Files.Shows

open Files (Shows)
open Files.Shows (streamOf)

namespace FileCall

variable {c : FileCall} {fd : BitVec 32} {mem : MemPtr} {path : String} {files : Files}
  {opened : Option (Option Stream)} {t : Stream}

-- The buffers of a read.
def buffers (c : FileCall) (mem : MemPtr) : List Buffer :=
  Ecsact.buffers (c.memories mem).bytes (c.call.val 1) (c.call.val 2)

-- What a read makes of the guest's memory, if these are the bytes which are left.
def filled (c : FileCall) (mem : MemPtr) (rest : List Byte) : ByteStore :=
  ((c.memories mem).bytes.scatter (c.buffers mem) rest).write (c.call.val 3).toInt
    (leBytes 8 (BitVec.ofNat 64 (rest.take (Buffer.capacity (c.buffers mem))).length).toNat)

-- The number is apart from the buffers, and these are apart from each other.
theorem Scatters.filled (hc : c.Scatters fd mem) {rest : List Byte} :
    List.Forall₂ (fun b chunk => chunk.length ≤ b.length ∧
      (c.filled mem rest).read b.start chunk.length = chunk ∧
      (chunk.length < b.length → rest.take (Buffer.capacity (c.buffers mem)) = rest))
      (c.buffers mem) (Buffer.chunks (c.buffers mem) rest) := by
  have ⟨hn, hb⟩ := List.pairwise_cons.mp (List.pairwise_cons.mp hc.args.apart).2
  have ⟨hl, hf⟩ := List.forall₂_iff_zip.mp <| @Buffer.chunks_fill (c.buffers mem) rest
  have ⟨_, hr⟩ := List.forall₂_iff_zip.mp <|
    @ByteStore.read_scatter (c.memories mem).bytes (c.buffers mem) rest hb
  refine List.forall₂_iff_zip.mpr ⟨hl, fun {b chunk} hm => ⟨(hf hm).1, ?_, (hf hm).2⟩⟩
  refine (?_ : _ = _).trans (hr hm)
  refine ByteStore.read_congr (b := ⟨b.start, chunk.length⟩) fun x hx => ?_
  rw [FileCall.filled, toInt_eq_toNat hc.args.ret.1]
  refine ByteStore.write_of_not_has (b := ⟨(c.call.val 3).toNat, 8⟩) (by simp) fun hx' => ?_
  exact hn b (List.of_mem_zip hm).1 x hx' ⟨hx.1, hx.2.trans_le <| by simpa using (hf hm).1⟩

theorem Scatters.count (hc : c.Scatters fd mem) {rest : List Byte} :
    (c.filled mem rest).readWord 32 (c.call.val 3).toNat =
      BitVec.ofNat 32 (rest.take (Buffer.capacity (c.buffers mem))).length := by
  rw [FileCall.filled, toInt_eq_toNat hc.args.ret.1]
  exact readWord_count

theorem Scatters.run (hc : c.Scatters fd mem) (hs : Shows fd path files opened)
    (ht : streamOf (c.world.files.disk (cStr path)) path opened = some t) :
    ∃ w, c.run files = .ok none w ∧ w.results = [some (.i32 0)] ∧
      Ecsact.delivered w = Files.readBytes t (Buffer.capacity (c.buffers mem)) ∧
      (w.memories mem).bytes = c.filled mem (t.content.drop t.pos) ∧
      Shows fd path w.files (some (some { t with
        pos := t.pos + (Files.readBytes t (Buffer.capacity (c.buffers mem))).length })) := by
  let w₀ := c.call.enter (c.start files)
  have hs : Shows fd path w₀.files opened := hs.withDisk
  have hcl := hs.closed_eq_false ht
  have ⟨k, files', ho, hk, hn⟩ := hs.ensureOpen_some ht
  have hl := ImportCall.fdRead_results hc.name (c.start files)
  have ⟨accesses, hw, hr⟩ := @fdRead_scatter mem fd (c.call.val 1) (c.call.val 2) (c.call.val 3)
    k w₀ files' t hc.active hl ho hk hcl hc.args
  have he := c.call.fdRead_run hc.name (c.start files)
  rw [hc.fd, hr] at he
  refine ⟨_, he, ?errno, ?delivered, ?memory, ?stream⟩
  case errno => exact ImportCall.enter_set hc.name rfl rfl _ _
  case delivered => exact (delivered_afterRead rfl).trans hw
  case memory =>
    rw [hw]
    exact withBytes_bytes
  case stream =>
    rw [hw]
    exact hn _ hcl

end FileCall

-- What a stream has been read up to is what the session has delivered.
def FileSession.Shown : Option FileSession → Option (Option Stream) → Prop
  | none,   none          => True
  | some s, some (some t) => t.content = s.content ∧ s.delivered = t.content.take t.pos
  | _,      _             => False

-- The invariant of all sessions.
structure Streams (g : Grant) (session : Option FileSession) (files : Files) : Prop where
  granted : ∃ grants, Files.Represents grants files ∧ inForce grants g.virtualPath = some g
  shows   : ∃ opened, Shows g.fd g.realPath files opened ∧ FileSession.Shown session opened

namespace Streams

variable {g : Grant} {session : Option FileSession} {files files' : Files} {c : FileCall}
  {s : FileSession} {mem : MemPtr} {w : World}

theorem intact (h : Streams g session files) : files.Intact := by
  have ⟨_, hg, _⟩ := h.granted
  exact hg.intact

-- The stream that a read starts from.
theorem exists_stream (h : Streams g session files) (hs : c.session g.realPath session = some s) :
    ∃ opened t, Shows g.fd g.realPath files opened ∧
      streamOf (c.world.files.disk (cStr g.realPath)) g.realPath opened = some t ∧
      t.content = s.content ∧ s.delivered = t.content.take t.pos := by
  have ⟨opened, ho, hm⟩ := h.shows
  cases session
  case none =>
    have ⟨content, hd, he⟩ := Option.map_eq_some_iff.mp hs
    subst he
    cases opened
    case some => cases hm
    case none => exact ⟨_, _, ho, by rw [streamOf, hd]; rfl, rfl, rfl⟩
  case some s' =>
    cases hs
    cases opened
    case none        => cases hm
    case some opened =>
      cases opened
      case none   => cases hm
      case some t => exact ⟨_, t, ho, rfl, hm⟩

theorem granted_next (h : Streams g session files) :
    ∃ grants, Files.Represents grants (c.next files) ∧ inForce grants g.virtualPath = some g := by
  have ⟨grants, hg, hi⟩ := h.granted
  exact ⟨grants, hg.withDisk.served <| within_served c.call (c.start files), hi⟩

theorem read (h : Streams g session files) (hc : c.Scatters g.fd mem)
    (hs : c.session g.realPath session = some s) :
    Streams g (some (c.deliver files s)) (c.next files) := by
  have ⟨opened, t, ho, ht, hcon, hd⟩ := h.exists_stream hs
  have ⟨w, hr, _, hdel, _, ho'⟩ := hc.run ho ht
  let t' : Stream :=
    { t with pos := t.pos + (Files.readBytes t (Buffer.capacity (c.buffers mem))).length }
  have ho' : Shows g.fd g.realPath (c.next files) (some (some t')) := by
    rw [FileCall.next, hr]
    exact ho'
  refine ⟨h.granted_next, _, ho', hcon, ?_⟩
  rw [FileCall.deliver, hr, Result.state_ok, hdel, hd, List.take_add]
  rw [Files.readBytes, List.length_take, ← List.take_take, List.take_length]

-- The descriptor is none of the standard streams'.
theorem not_isStdio (h : Streams g session files) : ¬IsStdio g.fd := by
  have ⟨grants, hg, hi⟩ := h.granted
  have hp := hg.toInt_fd <| List.mem_of_latest hi
  intro hs
  rcases hs with hs | hs | hs
  all_goals
    rw [hs] at hp
    exact absurd hp <| by decide

theorem close (h : Streams g session files) (hn : c.call.name = "fd_close")
    (hf : c.call.val 0 = g.fd) : Streams g (c.closed files session) (c.next files) := by
  have hg := h.granted_next (c := c)
  obtain ⟨opened, ho, hm⟩ := h.shows
  have hr := c.call.fdClose_run hn (c.start files)
  have hl := ImportCall.fdClose_results hn (c.start files)
  rw [hf] at hr
  have ho : Shows g.fd g.realPath (c.start files).files opened := ho.withDisk
  cases @trace_cases (c.call.enter (c.start files)) "fd_close"
  case inr ht =>
    obtain ⟨e, _, ht⟩ := ht
    have hr : c.run files = _ := hr.trans <| fdClose_refused ht
    refine ⟨hg, opened, ?next, ?closed⟩
    case next => rwa [FileCall.next, hr]
    case closed => rwa [FileCall.closed, hr]
  case inl ht =>
    have hne : opened ≠ some none := fun he => by
      subst he
      cases session <;> cases hm
    obtain ⟨files', hc, ho'⟩ := ho.close hne
    have hr : c.run files = _ := hr.trans <| fdClose_ok ht h.not_isStdio hc hl
    refine ⟨hg, none, ?next, ?closed⟩
    case next => rwa [FileCall.next, hr]
    case closed =>
      rw [FileCall.closed, hr]
      trivial

theorem other (h : Streams g session files) (hc : ¬c.IsFor g.fd) :
    Streams g session (c.next files) := by
  have ⟨opened, ho, hm⟩ := h.shows
  have ho : Shows g.fd g.realPath (c.start files).files opened := ho.withDisk
  have hi : (c.start files).files.Intact := ⟨h.intact.stream, h.intact.distinct⟩
  exact ⟨h.granted_next, opened, ho.of_other hi hc, hm⟩

theorem allow {realPath virtualPath : String} {fd : BitVec 32} (h : Streams g session files)
    (ha : Files.allowFileReadAccess realPath virtualPath files = .ok fd files')
    (hn : virtualPath ≠ g.virtualPath) : Streams g session files' := by
  have ⟨grants, hg, hi⟩ := h.granted
  have ⟨opened, ho, hm⟩ := h.shows
  have hl := hg.lt_of_allow_ok ha
  have ⟨_, _, ha', _, _, hst, hsame⟩ :=
    @Files.Represents.remaps grants files realPath virtualPath hg hl
  have hr := @Files.Represents.allow grants files realPath virtualPath hg hl
  cases ha.symm.trans ha'
  cases (hg.allow_eq hl).symm.trans ha
  refine ⟨⟨_, hr, ?latest⟩, opened, ho.of_table ?table fun _ _ _ _ _ hs => hst ▸ hs, hm⟩
  case latest => rw [inForce, List.latest_append, if_neg hn, ← hi, inForce]
  case table =>
    refine (hsame g.virtualPath (Ne.symm hn)).2 g.fd ?_
    rw [hg.current, hi, Option.map_some]

end Streams

namespace Streaming

variable {g : Grant} {session : Option FileSession} {files : Files} {c : FileCall} {s : FileSession}
  {mem : MemPtr}

theorem streams (h : Streaming g session files) : Streams g session files := by
  induction h
  case start grants files hh hg hc =>
    have hr := hh.represents
    have ⟨info, hv, ho⟩ := hc
    have ⟨info', hv', he⟩ := hr.exists_entry hg
    cases hv.symm.trans hv'
    exact ⟨⟨grants, hr, hg⟩, none, .closed hv (congrArg Grant.realPath he) ho, trivial⟩
  case read hc hs hi   => exact hi.read hc hs
  case close hn hf hi  => exact hi.close hn hf
  case other hc hi     => exact hi.other hc
  case allow ha hn hi  => exact hi.allow ha hn

-- Whatever has happened before, the next read goes on where the last one ended.
theorem reads_on (h : Streaming g session files) (hc : c.Scatters g.fd mem)
    (hs : c.session g.realPath session = some s) :
    ∃ w, c.run files = .ok none w ∧ c.Continues mem s w := by
  have ⟨opened, t, ho, ht, hcon, hd⟩ := h.streams.exists_stream hs
  have ⟨w, hr, he, hdel, hm, _⟩ := hc.run ho ht
  have hall : s.delivered ++ delivered w =
      s.content.take (t.pos + Buffer.capacity (c.buffers mem)) := by
    rw [hd, hdel, ← hcon, List.take_add]
    rfl
  refine ⟨w, hr, he, ⟨_, Buffer.chunks_flatten.trans hdel.symm, ?chunks⟩, ?isPrefix, ?count⟩
  case chunks =>
    rw [hm]
    refine hc.filled.imp fun b chunk ⟨hle, hc, hf⟩ => ⟨hle, hc, fun hl => ?_⟩
    have hr : delivered w = t.content.drop t.pos := hdel.trans <| hf hl
    rw [hd, hr, List.take_append_drop, hcon]
  case isPrefix =>
    rw [hall]
    exact List.take_prefix ..
  case count =>
    rw [hm, hdel]
    exact hc.count

-- The second read of the file of 6 bytes finds the last 2 of them.

theorem iovecs_readShared : iovecs ((readShared 1).memories 1).bytes
    ((readShared 1).call.val 1) ((readShared 1).call.val 2) = [⟨16, 4⟩] := by
  decide

theorem scatters_readShared : (readShared 1).Scatters 11 1 where
  name   := rfl
  fd     := rfl
  active := rfl
  args   := {
    array   := by decide
    ret     := by decide
    buffers := by
      rw [iovecs_readShared, List.forall_mem_singleton]
      decide
    apart   := by
      rw [buffers, iovecs_readShared]
      simp only [List.map_cons, List.map_nil, List.pairwise_cons, List.forall_mem_cons]
      exact ⟨⟨.of_le (by decide), .of_le (by decide), nofun⟩, ⟨.of_le (by decide), nofun⟩, nofun,
        .nil⟩
  }

theorem reads_on_shared : ∃ w, (readShared 1).run ((readShared 1).next sharedFiles) = .ok none w ∧
    (readShared 1).Continues 1 ⟨[1, 2, 3, 4, 5, 6], [1, 2, 3, 4]⟩ w := by
  have h₀ : Streaming ⟨"shared", "x", 11⟩ none sharedFiles :=
    .start (.allow .start rfl) rfl ⟨_, rfl, rfl⟩
  have h₁ := read h₀ scatters_readShared rfl
  exact h₁.reads_on scatters_readShared rfl

end Streaming
end Ecsact
