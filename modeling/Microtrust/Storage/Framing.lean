/-
The size field of a message (`ipc_get_msg` and `ipc_respond` of proxy/ipc.c).

A message is a header of 24 bytes and a payload, and its header holds the size
of both. A request is admitted only if its size is right. A response is sent
with the header of the request, whose size is left as it is.
-/
import Microtrust.Storage.Answer
import Microtrust.Storage.Stale

namespace Storage

open Lib

/-! ## Messages as bytes -/

/-- `sizeof(struct storage_msg)`. -/
def msgSize : Nat := 24

def Msg.encode (m : Msg) : Bytes :=
  leBytes 4 m.cmd.toNat ++ leBytes 4 m.opId.toNat ++ leBytes 4 m.flags.toNat ++ leBytes 4 m.size.toNat ++
    leBytes 4 (m.result % 2 ^ 32).toNat ++ leBytes 4 m.reserved.toNat

def Msg.decode (bs : Bytes) : Msg where
  cmd := UInt32.ofNat (leAt bs 0 4)
  opId := UInt32.ofNat (leAt bs 4 4)
  flags := UInt32.ofNat (leAt bs 8 4)
  size := UInt32.ofNat (leAt bs 12 4)
  result := toInt32 (leAt bs 16 4)
  reserved := UInt32.ofNat (leAt bs 20 4)

/-- `ipc_get_msg`, of a message that was read: as much of it as there is room
for. None where it returns -1. -/
def ipcGetMsg (bs : Bytes) : Option Request :=
  let got := bs.take (msgSize + reqBufferSize)
  if got.length < msgSize then none
  else if (Msg.decode got).size ≠ UInt32.ofNat got.length then none
  else some ⟨Msg.decode got, got.drop msgSize, by simp only [got, List.length_drop, List.length_take]; omega⟩

/-- What `ipc_respond` hands to `writev`. -/
def Resp.bytes (resp : Resp) : Bytes := resp.msg.encode ++ resp.out.getD []

/-- The size field of a message is the size of the message. -/
def Framed (bs : Bytes) : Prop := leAt bs 12 4 = bs.length

instance (bs : Bytes) : Decidable (Framed bs) := inferInstanceAs (Decidable (_ = _))

@[simp] theorem length_encode (m : Msg) : m.encode.length = msgSize := by
  simp [Msg.encode, msgSize]

theorem leAt_encode (m : Msg) (rest : Bytes) : leAt (m.encode ++ rest) 12 4 = m.size.toNat := by
  have hsplit : (m.encode ++ rest).drop 12 = leBytes 4 m.size.toNat ++
      (leBytes 4 (m.result % 2 ^ 32).toNat ++ leBytes 4 m.reserved.toNat ++ rest) := by
    simp only [Msg.encode, List.append_assoc]
    rw [← List.append_assoc, ← List.append_assoc, List.drop_left' (by simp)]
  rw [leAt, hsplit, List.take_left' (by simp)]
  exact le_leBytes_of_lt m.size.toNat_lt

/-- `ipc_get_msg` admits what is framed. -/
theorem ipcGetMsg_isSome {bs : Bytes} (hlen : msgSize ≤ bs.length) (hroom : bs.length ≤ msgSize + reqBufferSize) :
    (ipcGetMsg bs).isSome ↔ Framed bs := by
  have hsmall : bs.length < 2 ^ 32 := lt_of_le_of_lt hroom (by decide)
  simp only [ipcGetMsg, List.take_of_length_le hroom, Nat.not_lt.mpr hlen, if_false]
  have hsize : (Msg.decode bs).size = UInt32.ofNat bs.length ↔ Framed bs := by
    have hfield : leAt bs 12 4 < 2 ^ 32 := leAt_lt bs 12 4
    rw [← UInt32.toNat_inj]
    simp only [Msg.decode, UInt32.toNat_ofNat', Nat.mod_eq_of_lt hsmall, Nat.mod_eq_of_lt hfield]
    rfl
  split
  · next hne => simpa [hsize] using hne
  · next heq => simpa [hsize] using heq

theorem ipcGetMsg_size {bs : Bytes} {q : Request} (h : ipcGetMsg bs = some q) :
    q.msg.size.toNat = msgSize + q.payload.length := by
  unfold ipcGetMsg at h
  dsimp only at h
  split at h
  · cases h
  next hlen =>
  split at h
  · cases h
  next hsize =>
  obtain rfl := Option.some.inj h
  have hsmall : (bs.take (msgSize + reqBufferSize)).length < 2 ^ 32 :=
    lt_of_le_of_lt (List.length_take_le _ _) (by decide)
  rw [not_not.mp hsize, UInt32.toNat_ofNat', Nat.mod_eq_of_lt hsmall, List.length_drop]
  omega

/-! ## Responses -/

/-- The header of a response has the size of the request, so a response is
framed if its payload is as long as that of the request. -/
theorem Answers.framed_iff {w w' : World} {q : Request} {e : Err} {out : Option Bytes} {m : Marks} {k : Kernel}
    {resp : Resp} {bs : Bytes} (h : Answers w q.msg e out m k w') (hq : ipcGetMsg bs = some q)
    (hr : Storage.response w w' = some resp) : Framed resp.bytes ↔ (out.getD []).length = q.payload.length := by
  obtain ⟨rc, hr'⟩ := h.response
  obtain rfl := Option.some.inj (hr'.symm.trans hr)
  have hsize := ipcGetMsg_size hq
  simp only [Framed, Resp.bytes, leAt_encode, List.length_append, length_encode]
  simp only [Msg.answer, hsize]
  omega

/-! ## A proxy that can only answer -/

/-- Before the answer to a request: nothing was sent, and the device it goes to is
still there. -/
structure Quiet (w w₁ : World) : Prop extends Frame w w₁ where
  tipc : w₁.st.tipcFd = w.st.tipcFd
  desc : ∀ fd, w₁.kern.desc fd = w.kern.desc fd

theorem Quiet.refl (w : World) : Quiet w w := ⟨.refl w, rfl, fun _ => rfl⟩

theorem Quiet.trans {w w₁ w₂ : World} (h : Quiet w w₁) (h' : Quiet w₁ w₂) : Quiet w w₂ :=
  ⟨h.toFrame.trans h'.toFrame, h'.tipc.trans h.tipc, fun fd => (h'.desc fd).trans (h.desc fd)⟩

theorem Quiet.setMarks (w : World) (m : Marks) : Quiet w (w.setMarks m) := ⟨⟨rfl, rfl, rfl, rfl⟩, rfl, fun _ => rfl⟩

section Fails

variable (k : Kernel) (fd : Int)

theorem fsync_fails : ∃ e, k.fsync (.error .ioErr) fd = (.error e, k) := by
  unfold Kernel.fsync
  cases k.desc fd <;> exact ⟨_, rfl⟩

theorem fstat_fails : ∃ e, k.fstat (.error .ioErr) fd = .error e := by
  unfold Kernel.fstat
  cases k.desc fd <;> exact ⟨_, rfl⟩

theorem pread_fails (len : Nat) (off : Int) : ∃ e, k.pread (.error .ioErr) fd len off = .error e := by
  by_cases h : Unreadable k fd
  · obtain ⟨e, he, -⟩ := pread_refused h (.error .ioErr) len off
    exact ⟨e, he⟩
  · exact ⟨_, pread_broken h len off⟩

theorem pwrite_fails (buf : Bytes) (off : Int) : ∃ e, k.pwrite (.error .ioErr) fd buf off = (.error e, k) := by
  by_cases h : Unwritable k fd
  · exact ⟨_, pwrite_refused h (.error .ioErr) buf off⟩
  · exact ⟨_, pwrite_broken h buf off⟩

theorem ftruncate_fails (len : Int) : ∃ e, k.ftruncate (.error .ioErr) fd len = (.error e, k) := by
  by_cases h : Uncuttable k fd len
  · obtain ⟨e, he, -⟩ := ftruncate_refused h (.error .ioErr)
    exact ⟨e, he⟩
  · exact ⟨_, ftruncate_broken h⟩

end Fails

/-- The device takes the answers, and every other call fails. -/
structure Barren (w : World) : Prop where
  fails : ∀ t c, (∀ fd, c ≠ .writev fd) → w.env t c = .error .ioErr
  answers : ∀ t fd, ∃ n, w.env t (.writev fd) = .ok n
  device : (w.kern.desc w.st.tipcFd).isSome

section Barren

variable {w w₁ : World} {msg : Msg} {r : Bytes} {n : Nat}

theorem Barren.sys {α : Type} (hw : Barren w) {c : Syscall} {f : Reply → Kernel → α × Kernel} {a : α}
    (hc : ∀ fd, c ≠ .writev fd) (h : f (.error .ioErr) w.kern = (a, w.kern)) :
    ∃ w₁, w.sys c f = (a, w₁) ∧ Quiet w w₁ := by
  refine ⟨{ w with now := w.now + 1 }, ?_, ⟨⟨rfl, rfl, rfl, rfl⟩, rfl, fun _ => rfl⟩⟩
  unfold World.sys
  rw [hw.fails w.now c hc, h]

theorem Barren.alloc (hw : Barren w) (size : Nat) : ∃ w₁, w.alloc size = (false, w₁) ∧ Quiet w w₁ :=
  hw.sys (by simp) rfl

theorem Barren.asprintf (hw : Barren w) (s : Bytes) : ∃ w₁, asprintf w s = (none, w₁) ∧ Quiet w w₁ := by
  obtain ⟨w₁, hs, hq⟩ := hw.alloc (s.length + 1)
  exact ⟨w₁, by simp [Storage.asprintf, hs], hq⟩

theorem Barren.mono (hw : Barren w) (hq : Quiet w w₁) : Barren w₁ := by
  refine ⟨fun t c hc => ?_, fun t fd => ?_, ?_⟩
  · rw [hq.env]
    exact hw.fails t c hc
  · rw [hq.env]
    exact hw.answers t fd
  · rw [hq.tipc, hq.desc]
    exact hw.device

theorem Barren.prepareFloder (hw : Barren w) (root : Option Bytes) (path : Bytes) :
    Quiet w (prepareFloder w root path).2 := by
  unfold Storage.prepareFloder
  dsimp only
  split
  · obtain ⟨w₁, hs, hq⟩ := hw.alloc ((lastSlash path).toNat + 1)
    rw [hs]
    exact hq
  · exact .refl w

theorem Barren.openTarget (hw : Barren w) (flags : Nat) (name : Bytes) :
    ∃ w₁, openTarget w flags name = (none, w₁) ∧ Quiet w w₁ := by
  unfold Storage.openTarget
  split
  · exact hw.asprintf _
  split
  · exact hw.asprintf _
  split
  · obtain ⟨w₁, hs, hq⟩ := hw.asprintf (joined w.st.roots.ssdirName name)
    rw [hs]
    exact ⟨_, rfl, hq.trans ((hw.mono hq).prepareFloder w₁.st.roots.ssdirName name)⟩
  · exact hw.asprintf _

/-- What became of a request of which only the answer went through: nothing
follows its header. -/
def Bare (w : World) (msg : Msg) (res : Int × World) : Prop :=
  ∃ e out w₁, res = ipcRespond w₁ (msg.answer e) out ∧ Quiet w w₁ ∧ out.getD [] = []

theorem bare_refused (w : World) (msg : Msg) (e : Err) : Bare w msg (ipcRespond w (msg.answer e) none) :=
  ⟨_, _, w, rfl, .refl w, rfl⟩

theorem Quiet.bare (hq : Quiet w w₁) (msg : Msg) (e : Err) : Bare w msg (ipcRespond w₁ (msg.answer e) none) :=
  ⟨_, _, w₁, rfl, hq, rfl⟩

/-- No handler returns anything then. -/
theorem Barren.handler (hw : Barren w) (c : Cmd) (msg : Msg) (r : Bytes) (n : Nat) :
    Bare w msg (handler c w msg r n) := by
  cases c with
  | fileDelete =>
    dsimp only [Storage.handler, storageFileDelete]
    split
    · exact bare_refused ..
    split
    · exact bare_refused ..
    obtain ⟨w₁, hs, hq⟩ := hw.asprintf (joined w.st.roots.ssdirName (cstr (r.drop 4)))
    rw [hs]
    exact hq.bare ..
  | fileOpen =>
    dsimp only [Storage.handler, storageFileOpen]
    split
    · exact bare_refused ..
    split
    · exact bare_refused ..
    obtain ⟨w₁, hs, hq⟩ := hw.openTarget (leAt r 0 4) (cstr (r.drop 4))
    rw [hs]
    exact hq.bare ..
  | fileClose =>
    dsimp only [Storage.handler, storageFileClose]
    split
    · exact bare_refused ..
    have hm := Quiet.setMarks w (removeFd w.st.marks (leAt r 0 4)).2
    obtain ⟨e, he⟩ := fsync_fails w.kern (removeFd w.st.marks (leAt r 0 4)).1
    obtain ⟨w₁, hs, hq⟩ := (hw.mono hm).sys (c := .fsync _) (f := fun r k => k.fsync r _) (by simp) he
    rw [World.fsync, hs]
    exact (hm.trans hq).bare ..
  | fileWrite =>
    dsimp only [Storage.handler, storageFileWrite]
    split
    · exact bare_refused ..
    have hm := Quiet.setMarks w (lookupFd w.st.marks (leAt r 8 4) true).2
    unfold writeWithRetry
    cases hb : (r.take n).drop 16 with
    | nil => exact hm.bare ..
    | cons b bs =>
      obtain ⟨e, he⟩ := pwrite_fails w.kern (lookupFd w.st.marks (leAt r 8 4) true).1 (b :: bs)
        (toSigned w.abi.offBits (leAt r 0 8))
      obtain ⟨w₁, hs, hq⟩ := (hw.mono hm).sys (c := .pwrite _ _ _) (f := fun r k => k.pwrite r _ _ _) (by simp) he
      rw [List.length_cons, writeLoop, if_neg (List.cons_ne_nil b bs), World.pwrite, hs]
      exact (hm.trans hq).bare ..
  | fileRead =>
    dsimp only [Storage.handler, storageFileRead]
    split
    · exact bare_refused ..
    split
    · exact bare_refused ..
    have hm := Quiet.setMarks w (lookupFd w.st.marks (leAt r 0 4) false).2
    unfold readWithRetry
    cases hsize : leAt r 4 4 with
    | zero => exact ⟨_, _, _, rfl, hm, by simp⟩
    | succ size =>
      obtain ⟨e, he⟩ := pread_fails w.kern (lookupFd w.st.marks (leAt r 0 4) false).1 (size + 1)
        (toSigned w.abi.offBits (leAt r 8 8))
      obtain ⟨w₁, hs, hq⟩ := (hw.mono hm).sys (c := .pread _ _ _) (f := fun r k => (k.pread r _ _ _, k)) (by simp)
        (Prod.ext he rfl)
      rw [readLoop, if_neg (Nat.succ_ne_zero size), World.pread, hs]
      exact (hm.trans hq).bare ..
  | fileGetSize =>
    dsimp only [Storage.handler, storageFileGetSize]
    split
    · exact bare_refused ..
    have hm := Quiet.setMarks w (lookupFd w.st.marks (leAt r 0 4) false).2
    obtain ⟨e, he⟩ := fstat_fails w.kern (lookupFd w.st.marks (leAt r 0 4) false).1
    obtain ⟨w₁, hs, hq⟩ := (hw.mono hm).sys (c := .fstat _) (f := fun r k => (k.fstat r _, k)) (by simp)
      (Prod.ext he rfl)
    rw [World.fstat, hs]
    exact (hm.trans hq).bare ..
  | fileSetSize =>
    dsimp only [Storage.handler, storageFileSetSize]
    split
    · exact bare_refused ..
    have hm := Quiet.setMarks w (lookupFd w.st.marks (leAt r 8 4) true).2
    obtain ⟨e, he⟩ := ftruncate_fails w.kern (lookupFd w.st.marks (leAt r 8 4) true).1
      (toSigned w.abi.offBits (leAt r 0 8))
    obtain ⟨w₁, hs, hq⟩ := (hw.mono hm).sys (c := .ftruncate _ _) (f := fun r k => k.ftruncate r _ _) (by simp) he
    rw [World.ftruncate, hs]
    exact (hm.trans hq).bare ..
  | rpmbSend =>
    dsimp only [Storage.handler, rpmbSend]
    split
    · exact bare_refused ..
    split
    · exact bare_refused ..
    split
    · exact bare_refused ..
    next cmds _ =>
    have hm : Quiet w { w with mmc := w.mmc ++ [cmds] } := ⟨⟨rfl, rfl, rfl, rfl⟩, rfl, fun _ => rfl⟩
    obtain ⟨w₁, hs, hq⟩ := (hw.mono hm).sys (c := .ioctl w.st.rpmbFd)
      (f := fun r k => ((k.desc w.st.rpmbFd).isSome && r.toBool, k)) (a := false) (by simp) (by simp [Except.toBool])
    rw [World.touch, hs]
    exact (hm.trans hq).bare ..
  | initOk | initProinfoOk | initPersistOk =>
    dsimp only [Storage.handler]
    show Bare w msg (storageInitDone _ w msg r n)
    unfold storageInitDone
    split
    · exact bare_refused ..
    · exact ⟨_, _, _, rfl, ⟨⟨rfl, rfl, rfl, rfl⟩, rfl, fun _ => rfl⟩, rfl⟩

end Barren

/-- So does the whole round, if there is nothing to sync. -/
theorem serve_barren {w : World} (hw : Barren w) (hsettled : w.st.marks.Settled) (q : Request) :
    Bare w q.msg (serve w q) := by
  have h₀ : Quiet w (receive w q) := ⟨⟨rfl, rfl, rfl, rfl⟩, rfl, fun _ => rfl⟩
  have hdispatch (r : Bytes) (n : Nat) : Bare w q.msg (dispatch (receive w q) q.msg r n) := by
    cases hcmd : Cmd.ofCode q.msg.cmd with
    | none =>
      rw [dispatch_none hcmd]
      exact h₀.bare ..
    | some c =>
      rw [dispatch_some hcmd]
      obtain ⟨e, out, w₁, hs, hq, hout⟩ := (hw.mono h₀).handler c q.msg r n
      exact ⟨e, out, w₁, hs, h₀.trans hq, hout⟩
  unfold serve handleReq
  dsimp only
  split
  · exact h₀.bare ..
  split
  · rw [checkpoint_settled (w := receive w q) hsettled]
    exact hdispatch ..
  · exact hdispatch ..

/-- A request without a payload is too short for any command. -/
theorem refusable_of_nil {q : Request} (h : q.payload = []) (abi : Abi) : q.refusable abi := by
  refine .inr fun c _ => ?_
  cases c <;> simp [Cmd.malformed, h]

theorem framed_of_nil {bs : Bytes} {q : Request} {w : World} {resp : Resp} (hq : ipcGetMsg bs = some q)
    (hnil : q.payload = []) (hr : response w (serve w q).2 = some resp) :
    Framed resp.bytes ∧ (ipcGetMsg resp.bytes).isSome := by
  obtain ⟨e, _, hs⟩ := serve_refused (refusable_of_nil hnil w.abi)
  have hf : Frame w (begun w q) := by
    unfold begun
    split
    · exact ⟨rfl, rfl, rfl, rfl⟩
    split
    · have hf₀ : Frame w (receive w q) := ⟨rfl, rfl, rfl, rfl⟩
      exact hf₀.trans (checkpoint_synced (Prod.mk.eta (p := storageSyncCheckpoint (receive w q))).symm).frame
    · exact ⟨rfl, rfl, rfl, rfl⟩
  have hs' : ipcRespond (begun w q) (q.msg.answer e) none = ((serve w q).1, (serve w q).2) := hs.symm
  have ha := hf.respond rfl rfl hs'
  have hframed : Framed resp.bytes := (ha.framed_iff hq hr).mpr (by simp [hnil])
  obtain ⟨rc, hr'⟩ := ha.response
  obtain rfl := Option.some.inj (hr'.symm.trans hr)
  exact ⟨hframed, (ipcGetMsg_isSome (by simp [Resp.bytes]) (by simp [Resp.bytes])).mpr hframed⟩

/-- A proxy that was started, and on which nothing works from then on but the
device its answers go to. -/
def barren : World :=
  { dataStarted with env := fun _ c => match c with
    | .writev _ => .ok 0
    | _ => .error .ioErr }

theorem barren_barren : Barren barren := by
  refine ⟨fun t c hc => ?_, fun t fd => ⟨0, rfl⟩, by decide⟩
  cases c with
  | writev fd => exact absurd rfl (hc fd)
  | _ => rfl

theorem barren_settled : barren.st.marks.Settled := by
  have hunused (n : Nat) : barren.st.marks.fdState n = .unused := rfl
  exact ⟨fun n => by simp [hunused], by decide, by decide⟩

/-- Its answer is sent. -/
theorem Barren.sent {w w₁ : World} (hw : Barren w) (hq : Quiet w w₁) (msg : Msg) (out : Option Bytes) :
    response w (ipcRespond w₁ msg out).2 = some ⟨{ msg with cmd := msg.cmd ||| respBit }, out, 0⟩ := by
  obtain ⟨n, hn⟩ := hw.answers w₁.now w.st.tipcFd
  simp [response, ipcRespond, World.touch, World.sys, hq.sent, hq.tipc, hq.desc, hq.env, hn, hw.device, Except.toBool]

/-- **Every response that is sent to a request is framed, as `ipc_get_msg` wants
it of a request, exactly when the request has no payload**: only then is the size
in its header that of every response, sent or not. -/
theorem responses_framed_iff {bs : Bytes} {q : Request} (hq : ipcGetMsg bs = some q) :
    ((∀ w resp, response w (serve w q).2 = some resp → resp.rc = 0 →
        Framed resp.bytes ∧ (ipcGetMsg resp.bytes).isSome) ↔ q.payload = []) ∧
      (q.payload = [] → ∀ w resp, response w (serve w q).2 = some resp →
        Framed resp.bytes ∧ (ipcGetMsg resp.bytes).isSome) := by
  refine ⟨⟨fun hall => ?_, fun hnil w resp hr _ => framed_of_nil hq hnil hr⟩,
    fun hnil w resp hr => framed_of_nil hq hnil hr⟩
  obtain ⟨e, out, w₁, hs, hquiet, hout⟩ := serve_barren barren_barren barren_settled q
  have hr := barren_barren.sent hquiet (q.msg.answer e) out
  rw [← hs] at hr
  have ha := hquiet.toFrame.respond rfl rfl (hs.symm.trans Prod.mk.eta.symm)
  have hlen := (ha.framed_iff hq hr).mp (hall _ _ hr rfl).1
  rw [hout] at hlen
  exact List.length_eq_zero_iff.mp hlen.symm

/-! Handle 5 is closed by a message of 28 bytes; the response has 24, and says
it has 28. -/

def closeMsg : Msg := ⟨Cmd.fileClose.code, 0, 0, 28, 0, 0⟩

def closeSent : Bytes := closeMsg.encode ++ [5, 0, 0, 0]

theorem close_response_not_framed :
    ∃ q resp, ipcGetMsg closeSent = some q ∧ Framed closeSent ∧
      response dataCreated (serve dataCreated q).2 = some resp ∧ resp.rc = 0 ∧ resp.msg.result = Err.noError.code ∧
      resp.bytes.length = 24 ∧ resp.msg.size = 28 ∧ ¬ Framed resp.bytes ∧ ipcGetMsg resp.bytes = none := by
  refine ⟨(ipcGetMsg closeSent).get (by decide), _, (Option.some_get _).symm, by decide, rfl, by decide, by decide,
    by decide, by decide, by decide, ?_⟩
  rw [← Option.not_isSome_iff_eq_none]
  decide

/-- A message that is all header. -/
def bareSent : Bytes := Msg.encode ⟨Cmd.fileClose.code, 0, 0, 24, 0, 0⟩

theorem responses_framed_iff_bare :
    ∃ q resp, ipcGetMsg bareSent = some q ∧ response dataCreated (serve dataCreated q).2 = some resp ∧
      Framed resp.bytes := by
  have hq : ipcGetMsg bareSent = some ((ipcGetMsg bareSent).get (by decide)) := (Option.some_get _).symm
  exact ⟨_, _, hq, rfl, ((responses_framed_iff hq).1.mpr (by decide) dataCreated _ rfl (by decide)).1⟩

end Storage
