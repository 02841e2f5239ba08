/-
What a transfer moves.

`pwrite` and `pread` may move fewer bytes than they are asked to, so both are
called in a loop that advances the buffer, the size and the offset. Whatever
the single calls move, a loop that ends well has moved everything, to and from
the place it was asked to.
-/
import Microtrust.Lib.Content
import Microtrust.Storage.Places

namespace Storage

open Lib

/-! ## The loops -/

section Loops

variable {M : Nat} {w w' : World} {fd off : Int}

/-- The offset goes on, or past the largest of its type and is negative. -/
theorem advance_cases {abi : Abi} {n : Nat} (hM : 2 ^ abi.offBits = 2 * M) (h₀ : 0 ≤ off) (hoff : off < M)
    (hn : n ≤ M) : advance abi off n = off + n ∧ off + n < M ∨ advance abi off n < 0 := by
  unfold advance
  rw [hM, Int.bmod_def, Int.emod_eq_of_lt (by omega) (by omega)]
  split
  · exact .inl ⟨rfl, by omega⟩
  · exact .inr (by omega)

/-- What storing `bs` through `fd` at `off` comes to: the first bytes of it
are there, all of them if it went well, and none if the offset is negative. -/
def Stored (k : Kernel) (fd off : Int) (bs : Bytes) (well : Prop) (data : Nat → Bytes) : Prop :=
  ∃ c ≤ bs.length, data = k.store fd off.toNat (bs.take c) ∧ (off < 0 → c = 0) ∧
    (well → k.inode fd ≠ none → c = bs.length)

theorem Stored.nothing {k : Kernel} {bs : Bytes} {well : Prop} (h : well → k.inode fd ≠ none → bs = []) :
    Stored k fd off bs well k.data :=
  ⟨0, by omega, by simp, fun _ => rfl, fun hw hi => by simp [h hw hi]⟩

theorem Writes.data_of_none {k k' : Kernel} (h : Writes fd k k') (hi : k.inode fd = none) : k'.data = k.data := by
  have hstay : k' = k := by
    cases h.cases_head with
    | inl he => exact he.symm
    | inr hx =>
      obtain ⟨_, ⟨d, ino, data, hd, ho, _⟩, _⟩ := hx
      rcases ho with ho | ho <;> simp [Kernel.inode, hd, ho] at hi
  rw [hstay]

theorem writeLoop_stored {n : Nat} {buf : Bytes} {res} (hM : 2 ^ w.abi.offBits = 2 * M) (hoff : off < M)
    (hlen : buf.length ≤ M) (hn : buf.length ≤ n) (h : writeLoop n w fd buf off = (res, w')) :
    Stored w.kern fd off buf (res = .ok ()) w'.kern.data := by
  cases hi : w.kern.inode fd with
  | none =>
    rw [(writeLoop_spec h).2.2.data_of_none hi]
    exact .nothing fun _ hne => absurd hi hne
  | some ino =>
    induction n generalizing w buf off with
    | zero =>
      obtain ⟨_, rfl⟩ := Prod.mk.inj h
      exact .nothing fun _ _ => by simpa using hn
    | succ n ih =>
      unfold writeLoop at h
      split at h
      · next hnil =>
        obtain ⟨_, rfl⟩ := Prod.mk.inj h
        exact .nothing fun _ _ => hnil
      next hne =>
      split at h
      · next e w₁ he =>
        obtain ⟨rfl, rfl⟩ := Prod.mk.inj h
        rw [Kernel.pwrite_error (World.sys_inv he).1]
        exact .nothing nofun
      · next m w₁ he =>
        obtain ⟨hk, _, hf⟩ := World.sys_inv he
        obtain ⟨hpos, hm, h₀, hfds, hdata⟩ := Kernel.pwrite_ok hne hk
        have h₀ := h₀ (by simp [hi])
        have hstep := advance_cases hM h₀ hoff (show m ≤ M by omega)
        rw [← hf.abi] at hstep
        obtain ⟨c, hc, hdata', hneg, hall⟩ := ih (w := w₁) (by rw [hf.abi, hM])
          (by omega) (by simp; omega) (by simp; omega) h (by rw [Kernel.inode_congr hfds, hi])
        rw [List.length_drop] at hc hall
        refine ⟨m + c, by omega, ?_, by omega, fun hw hne => ?_⟩
        · -- the rest went right behind what this call wrote, or nowhere
          rw [hdata', List.take_add]
          rcases hstep with ⟨hadv, _⟩ | hadv
          · have hto : (advance w₁.abi off m).toNat = off.toNat + (buf.take m).length := by
              rw [hadv, List.length_take]
              omega
            rw [hto, Kernel.store_store hfds hdata]
          · rw [hneg hadv]
            simp [hdata]
        · have := hall hw (by rw [Kernel.inode_congr hfds]; exact hne)
          omega

/-- A list up to `size` is any first part of it and the rest up to `size`. -/
theorem take_eq_append {L bs : Bytes} {size j : Nat} (h : bs = (L.take size).take j) :
    L.take size = bs ++ (L.drop bs.length).take (size - bs.length) := by
  have hpre : bs <+: L.take size := h ▸ List.take_prefix _ _
  have hbs : bs = L.take bs.length := by
    have := List.prefix_iff_eq_take.mp hpre
    rwa [List.take_take, min_eq_left (by simpa using hpre.length_le.trans (by simp))] at this
  have hle : bs.length ≤ size := by simpa using hpre.length_le.trans (List.length_take_le _ _)
  conv_lhs => rw [show size = bs.length + (size - bs.length) by omega, List.take_add, ← hbs]

theorem readLoop_exact {n size rcnt c ino : Nat} (hM : 2 ^ w.abi.offBits = 2 * M) (hoff : off < M)
    (hsize : size ≤ M) (hn : size ≤ n) (hrcnt : rcnt ≤ w.st.readRsp.length) (hi : w.kern.inode fd = some ino)
    (h : readLoop n w fd size off rcnt = (.ok c, w')) :
    (size = 0 ∨ 0 ≤ off) ∧
      w'.st.readRsp.take c = w.st.readRsp.take rcnt ++ ((w.kern.data ino).drop off.toNat).take size := by
  induction n generalizing w size off rcnt with
  | zero =>
    obtain ⟨hc, rfl⟩ := Prod.mk.inj h
    obtain rfl := Except.ok.inj hc
    obtain rfl : size = 0 := by omega
    simp
  | succ n ih =>
    unfold readLoop at h
    split at h
    · next hz =>
      obtain ⟨hc, rfl⟩ := Prod.mk.inj h
      obtain rfl := Except.ok.inj hc
      simp [hz]
    next hz =>
    split at h
    · simp at h
    · next w₁ he =>
      obtain ⟨hc, rfl⟩ := Prod.mk.inj h
      obtain rfl := Except.ok.inj hc
      obtain ⟨hk, hst, _⟩ := World.sys_inv he
      obtain ⟨h₀, j, hj, hbs⟩ := Kernel.pread_ok hi (Prod.mk.inj hk).1
      -- nothing was read though a byte was asked for: the file ends here
      have hend : ((w.kern.data ino).drop off.toNat).take size = [] := by
        rcases List.take_eq_nil_iff.mp hbs.symm with hj' | hnil
        · omega
        · exact hnil
      exact ⟨.inr h₀, by rw [hend, hst, List.append_nil]⟩
    · next bs w₁ hne he =>
      obtain ⟨hk, hst, hf⟩ := World.sys_inv he
      obtain ⟨hk, hkern⟩ := Prod.mk.inj hk
      obtain ⟨h₀, j, hj, hbs⟩ := Kernel.pread_ok hi hk
      have hpos : 0 < bs.length := List.length_pos_iff.mpr hne
      have hle : bs.length ≤ size := by simp [hbs]
      have hstep := advance_cases hM h₀ hoff (show bs.length ≤ M by omega)
      rw [← hf.abi] at hstep
      have hbelow : advance w₁.abi off bs.length < M := by omega
      have hM₁ : 2 ^ w₁.abi.offBits = 2 * M := by rw [hf.abi, hM]
      obtain ⟨hlast, hread⟩ := ih (w := { w₁ with st := { w₁.st with readRsp := splice w₁.st.readRsp rcnt bs } })
        hM₁ hbelow (by omega) (by omega) (le_length_splice _ _ _) (by rw [← hkern]; exact hi) h
      replace hlast : size - bs.length = 0 ∨ 0 ≤ advance w₁.abi off bs.length := hlast
      refine ⟨.inr h₀, ?_⟩
      rw [hread, take_splice bs (by rw [hst]; exact hrcnt), hst, ← hkern, take_eq_append hbs, List.append_assoc,
        List.drop_drop]
      congr 2
      rcases hstep with ⟨hadv, _⟩ | hadv
      · rw [show (advance w₁.abi off bs.length).toNat = off.toNat + bs.length by omega]
      · rw [show size - bs.length = 0 by omega]
        simp

end Loops

/-! ## The commands -/

section Commands

variable {M n : Nat} {w w' : World} {msg : Msg} {r : Bytes} {rc : Int}

theorem toSigned_lt {bits : Nat} (hM : 2 ^ bits = 2 * M) (x : Nat) : toSigned bits x < M := by
  rcases toSigned_cases hM x with ⟨hlt, heq⟩ | ⟨_, hneg⟩
  · rw [heq]
    exact_mod_cast hlt
  · omega

theorem storageFileWrite_stored (hM : 2 ^ w.abi.offBits = 2 * M) (hn : 16 ≤ n) (hlen : n ≤ M)
    (h : storageFileWrite w msg r n = (rc, w')) :
    ∃ e m k, Answers w msg e none m k w' ∧
      Stored w.kern (toInt32 (leAt r 8 4)) (toSigned w.abi.offBits (leAt r 0 8)) ((r.take n).drop 16)
        (e = .noError) k.data := by
  unfold storageFileWrite at h
  rw [if_neg (by omega)] at h
  have hf₀ := (Frame.refl w).setMarks (lookupFd w.st.marks (leAt r 8 4) true).2
  have hM₀ : 2 ^ (w.setMarks (lookupFd w.st.marks (leAt r 8 4) true).2).abi.offBits = 2 * M := hM
  have hdata : ((r.take n).drop 16).length ≤ M := by
    simp
    omega
  dsimp only at h
  split at h
  · next e w₁ hw =>
    obtain ⟨c, hc, hd, hneg, _⟩ := writeLoop_stored hM₀ (toSigned_lt hM _) hdata le_rfl hw
    obtain ⟨hf, _, _⟩ := writeLoop_spec hw
    exact ⟨_, _, _, (hf₀.trans hf).respond rfl rfl h, c, hc, hd, hneg, fun he => absurd he (translateErrno_ne e)⟩
  · next w₁ hw =>
    obtain ⟨c, hc, hd, hneg, hall⟩ := writeLoop_stored hM₀ (toSigned_lt hM _) hdata le_rfl hw
    obtain ⟨hf, _, _⟩ := writeLoop_spec hw
    exact ⟨_, _, _, (hf₀.trans hf).respond rfl rfl h, c, hc, hd, hneg, fun _ => hall rfl⟩

/-- A read that ends well returns the bytes at its offset. -/
def Returned (k : Kernel) (fd off : Int) (size : Nat) (out : Option Bytes) : Prop :=
  size ≤ maxReadSize ∧ ∀ ino, k.inode fd = some ino →
    (size = 0 ∨ 0 ≤ off) ∧ out = some (((k.data ino).drop off.toNat).take size)

theorem storageFileRead_returned (hM : 2 ^ w.abi.offBits = 2 * M) (hbig : maxReadSize ≤ M)
    (h : storageFileRead w msg r n = (rc, w')) :
    ∃ e out, Answers w msg e out w.st.marks w.kern w' ∧ (e = .noError →
      Returned w.kern (toInt32 (leAt r 0 4)) (toSigned w.abi.offBits (leAt r 8 8)) (leAt r 4 4) out) := by
  unfold storageFileRead at h
  split at h
  · exact ⟨_, _, refused h, by simp⟩
  split at h
  · exact ⟨_, _, refused h, by simp⟩
  next hsize =>
  have hf₀ := (Frame.refl w).setMarks (lookupFd w.st.marks (leAt r 0 4) false).2
  dsimp only at h
  split at h
  · next e w₁ hr =>
    obtain ⟨hf, hm, hk⟩ := readLoop_spec hr
    exact ⟨_, _, (hf₀.trans hf).respond hm hk h, fun he => absurd he (translateErrno_ne e)⟩
  · next c w₁ hr =>
    obtain ⟨hf, hm, hk⟩ := readLoop_spec hr
    refine ⟨_, _, (hf₀.trans hf).respond hm hk h, fun _ => ⟨by omega, fun ino hi => ?_⟩⟩
    obtain ⟨hlast, hread⟩ := readLoop_exact (w := w.setMarks _) hM (toSigned_lt hM _) (by omega) le_rfl
      (Nat.zero_le _) hi hr
    exact ⟨hlast, by rw [hread]; rfl⟩

/-- The file behind `fd` was given the length `len`. -/
def Cut (k : Kernel) (fd len : Int) (data : Nat → Bytes) : Prop :=
  0 ≤ len ∧ ∃ ino, k.inode fd = some ino ∧ data = Function.update k.data ino (padTake (k.data ino) len.toNat)

theorem storageFileSetSize_cut (h : storageFileSetSize w msg r n = (rc, w')) :
    ∃ e m k, Answers w msg e none m k w' ∧ (e ≠ .noError ∧ k.data = w.kern.data ∨
      e = .noError ∧ Cut w.kern (toInt32 (leAt r 8 4)) (toSigned w.abi.offBits (leAt r 0 8)) k.data) := by
  unfold storageFileSetSize at h
  split at h
  · exact ⟨_, _, _, refused h, .inl ⟨by simp, rfl⟩⟩
  have hf₀ := (Frame.refl w).setMarks (lookupFd w.st.marks (leAt r 8 4) true).2
  dsimp only at h
  split at h
  · next e w₁ ht =>
    obtain ⟨hk, _, hf⟩ := World.sys_inv ht
    exact ⟨_, _, _, (hf₀.trans hf).respond rfl rfl h, .inl ⟨translateErrno_ne e, by rw [Kernel.ftruncate_error hk]; rfl⟩⟩
  · next w₁ ht =>
    obtain ⟨hk, _, hf⟩ := World.sys_inv ht
    obtain ⟨h₀, d, ino, hd, ho, hdata⟩ := Kernel.ftruncate_ok hk
    have hd : w.kern.desc (toInt32 (leAt r 8 4)) = some d := hd
    exact ⟨_, _, _, (hf₀.trans hf).respond rfl rfl h,
      .inr ⟨rfl, h₀, ino, by simp [Kernel.inode, hd, ho], hdata⟩⟩

end Commands

/-! ## A request -/

/-- The 64-bit offset or size in a request, if it is long enough to have one. -/
def Request.position (q : Request) : Option Nat :=
  match q.cmd with
  | some .fileWrite => if q.payload.length < 16 then none else some (leAt q.payload 0 8)
  | some .fileRead => if q.payload.length = 16 then some (leAt q.payload 8 8) else none
  | some .fileSetSize => if q.payload.length = 16 then some (leAt q.payload 0 8) else none
  | _ => none

/-- The data of a write. -/
def Request.data (q : Request) : Bytes := q.payload.drop 16

/-- How much a read asks for. -/
def Request.readSize (q : Request) : Nat := leAt q.payload 4 4

/-- The payload of the response to the request that took `w` to `w'`. -/
def returned (w w' : World) : Option Bytes := (response w w').bind Resp.out

theorem Answers.returned {w w' : World} {msg : Msg} {e : Err} {out : Option Bytes} {m : Marks} {k : Kernel}
    (h : Answers w msg e out m k w') : Storage.returned w w' = out := by
  obtain ⟨rc, hr⟩ := h.response
  rw [Storage.returned, hr]
  rfl

section Requests

variable {M off x : Nat} {w : World} {q : Request}

theorem write_fields (hc : q.cmd = some .fileWrite) (hx : q.handle = some x) (hp : q.position = some off) :
    16 ≤ q.payload.length ∧ leAt q.payload 8 4 = x ∧ leAt q.payload 0 8 = off := by
  simp only [Request.position, Request.handle, hc] at hp hx
  split at hp
  · cases hp
  · next hlen =>
    rw [if_neg hlen] at hx
    exact ⟨by omega, Option.some.inj hx, Option.some.inj hp⟩

theorem read_fields (hc : q.cmd = some .fileRead) (hx : q.handle = some x) (hp : q.position = some off) :
    q.payload.length = 16 ∧ leAt q.payload 0 4 = x ∧ leAt q.payload 8 8 = off := by
  simp only [Request.position, Request.handle, hc] at hp hx
  split at hp
  · next hlen =>
    rw [if_pos hlen] at hx
    exact ⟨hlen, Option.some.inj hx, Option.some.inj hp⟩
  · cases hp

theorem setSize_fields (hc : q.cmd = some .fileSetSize) (hx : q.handle = some x) (hp : q.position = some off) :
    q.payload.length = 16 ∧ leAt q.payload 8 4 = x ∧ leAt q.payload 0 8 = off := by
  simp only [Request.position, Request.handle, hc] at hp hx
  split at hp
  · next hlen =>
    rw [if_pos hlen] at hx
    exact ⟨hlen, Option.some.inj hx, Option.some.inj hp⟩
  · cases hp

theorem serve_write (hc : q.cmd = some .fileWrite) (hx : q.handle = some x) (hp : q.position = some off)
    (hM : 2 ^ w.abi.offBits = 2 * M) (hbig : reqBufferSize ≤ M) :
    Stored w.kern (toInt32 x) (toSigned w.abi.offBits off) q.data (answered w (serve w q).2 .noError = true)
      (serve w q).2.kern.data := by
  obtain ⟨hlen, hx, hp⟩ := write_fields hc hx hp
  rcases serve_handled hc (Prod.mk.eta (p := serve w q)).symm with ⟨_, e, m, p, he, ha⟩ | ⟨w₁, rest, p, hf, hk, h⟩
  · rw [ha.kern, ha.answered]
    exact Stored.nothing (k := w.kern) fun hw => absurd (by simpa using hw) he
  · have hfits := q.fits
    obtain ⟨e, m, k, ha, hs⟩ := storageFileWrite_stored (by rw [hf.abi, hM]) (by omega) (by omega) h
    rw [leAt_append (by omega), leAt_append (by omega), hx, hp, hf.abi, hk, List.take_left] at hs
    rw [(hf.answers ha).answered, decide_eq_true_eq, ha.kern]
    exact hs

theorem serve_read (hc : q.cmd = some .fileRead) (hx : q.handle = some x) (hp : q.position = some off)
    (hM : 2 ^ w.abi.offBits = 2 * M) (hbig : maxReadSize ≤ M) :
    (serve w q).2.kern.data = w.kern.data ∧ (answered w (serve w q).2 .noError = true →
      Returned w.kern (toInt32 x) (toSigned w.abi.offBits off) q.readSize (returned w (serve w q).2)) := by
  obtain ⟨hlen, hx, hp⟩ := read_fields hc hx hp
  rcases serve_handled hc (Prod.mk.eta (p := serve w q)).symm with ⟨_, e, m, p, he, ha⟩ | ⟨w₁, rest, p, hf, hk, h⟩
  · rw [ha.kern, ha.answered]
    exact ⟨rfl, fun hw => absurd (by simpa using hw) he⟩
  · obtain ⟨e, out, ha, hr⟩ := storageFileRead_returned (by rw [hf.abi, hM]) hbig h
    rw [leAt_append (by omega), leAt_append (by omega), leAt_append (by omega), hx, hp, hf.abi, hk] at hr
    rw [(hf.answers ha).answered, decide_eq_true_eq, ha.kern, hk, (hf.answers ha).returned]
    exact ⟨rfl, hr⟩

theorem serve_setSize (hc : q.cmd = some .fileSetSize) (hx : q.handle = some x) (hp : q.position = some off) :
    answered w (serve w q).2 .noError = false ∧ (serve w q).2.kern.data = w.kern.data ∨
      answered w (serve w q).2 .noError = true ∧
        Cut w.kern (toInt32 x) (toSigned w.abi.offBits off) (serve w q).2.kern.data := by
  obtain ⟨hlen, hx, hp⟩ := setSize_fields hc hx hp
  rcases serve_handled hc (Prod.mk.eta (p := serve w q)).symm with ⟨_, e, m, p, he, ha⟩ | ⟨w₁, rest, p, hf, hk, h⟩
  · rw [ha.kern, ha.answered]
    exact .inl ⟨by simpa using he, rfl⟩
  · obtain ⟨e, m, k, ha, hs⟩ := storageFileSetSize_cut h
    rw [leAt_append (by omega), leAt_append (by omega), hx, hp, hf.abi, hk] at hs
    rw [(hf.answers ha).answered, ha.kern]
    simp only [decide_eq_true_eq, decide_eq_false_iff_not]
    exact hs

/-- A read of more than the buffer of its response holds is refused. -/
theorem serve_read_large (hc : q.cmd = some .fileRead) (hlen : q.payload.length = 16)
    (hbig : maxReadSize < q.readSize) :
    ∃ e m p, e ≠ .noError ∧ (q.plain → e = .notValid) ∧
      Answers w q.msg e none m (w.kern.settle p) (serve w q).2 := by
  rcases serve_handled hc (Prod.mk.eta (p := serve w q)).symm with ⟨hplain, e, m, p, he, ha⟩ | ⟨w₁, rest, p, hf, hk, h⟩
  · exact ⟨e, m, p, he, fun h => absurd h hplain, ha⟩
  · have ha := storageFileRead_large h hlen (by rw [leAt_append (by omega)]; exact hbig)
    rw [Refused, hk] at ha
    exact ⟨_, _, p, by simp, fun _ => rfl, hf.answers ha⟩

end Requests

/-! ## Exact transfers -/

/-- A write answered well has overlaid the file `ino` with its data, and a read
answered well has returned what there is of the bytes it asked for. -/
structure Exact (w : World) (q : Request) (ino off : Nat) (w' : World) : Prop where
  write : q.cmd = some .fileWrite → answered w w' .noError = true →
    w'.kern.data = Function.update w.kern.data ino (overlay (w.kern.data ino) off q.data)
  read : q.cmd = some .fileRead → w'.kern.data = w.kern.data ∧ (answered w w' .noError = true →
    q.readSize ≤ maxReadSize ∧ returned w w' = some (((w.kern.data ino).drop off).take q.readSize))
  large : q.cmd = some .fileRead → maxReadSize < q.readSize →
    ∃ e m p, e ≠ .noError ∧ (q.plain → e = .notValid) ∧ Answers w q.msg e none m (w.kern.settle p) w'

theorem serve_exact {w : World} {q : Request} {x off ino : Nat} (h64 : w.abi.offBits = 64) (hx : q.handle = some x)
    (hp : q.position = some off) (hoff : off < 2 ^ 63) (hino : w.kern.inode (toInt32 x) = some ino) :
    Exact w q ino off (serve w q).2 := by
  have hM : 2 ^ w.abi.offBits = 2 * 2 ^ 63 := by rw [h64]; norm_num
  have hsigned : toSigned w.abi.offBits off = off := toSigned_of_lt hM hoff
  constructor
  · intro hc hwell
    obtain ⟨c, _, hdata, _, hall⟩ := serve_write hc hx hp hM (by decide)
    rw [hdata, hall hwell (by simp [hino]), List.take_length, hsigned, Int.toNat_natCast]
    simp [Kernel.store, hino]
  · intro hc
    obtain ⟨hdata, hread⟩ := serve_read hc hx hp hM (by decide)
    refine ⟨hdata, fun hwell => ?_⟩
    obtain ⟨hsize, hret⟩ := hread hwell
    obtain ⟨_, hret⟩ := hret ino hino
    rw [hsigned, Int.toNat_natCast] at hret
    exact ⟨hsize, hret⟩
  · intro hc hbig
    exact serve_read_large hc (read_fields hc hx hp).1 hbig

/-- On a build with 64-bit offsets, writes and reads are exact, however few
bytes the single calls move; two schedules under which a request is answered
well leave the same data and return the same bytes. -/
theorem transfers_exact {w : World} {q : Request} {x off ino : Nat} (h64 : w.abi.offBits = 64)
    (hc : q.cmd = some .fileWrite ∨ q.cmd = some .fileRead) (hx : q.handle = some x) (hp : q.position = some off)
    (hoff : off < 2 ^ 63) (hino : w.kern.inode (toInt32 x) = some ino) :
    Exact w q ino off (serve w q).2 ∧
      ∀ env, answered w (serve w q).2 .noError = true →
        answered w (serve { w with env := env } q).2 .noError = true →
        (serve { w with env := env } q).2.kern.data = (serve w q).2.kern.data ∧
          (q.cmd = some .fileRead → returned w (serve { w with env := env } q).2 = returned w (serve w q).2) := by
  have hexact := serve_exact h64 hx hp hoff hino
  refine ⟨hexact, fun env hwell hwell' => ?_⟩
  have hexact' := serve_exact (w := { w with env := env }) h64 hx hp hoff hino
  rcases hc with hc | hc
  · refine ⟨(hexact'.write hc hwell').trans (hexact.write hc hwell).symm, fun hr => ?_⟩
    rw [hc] at hr
    cases hr
  · exact ⟨(hexact'.read hc).1.trans (hexact.read hc).1.symm,
      fun _ => ((hexact'.read hc).2 hwell').2.trans ((hexact.read hc).2 hwell).2.symm⟩

/-- The two bytes at offset 1 of a new file, through handle 5. -/
def writePair : Request :=
  request .fileWrite 0 [1, 0, 0, 0, 0, 0, 0, 0, 5, 0, 0, 0, 0, 0, 0, 0, 7, 8] (by decide)

/-- A byte at a time: the file is a zero and the two bytes. -/
theorem transfers_exact_pair :
    answered dataCreated (serve dataCreated writePair).2 .noError = true ∧
      (serve dataCreated writePair).2.kern.data 0 = [0, 7, 8] ∧
      Exact dataCreated writePair 0 1 (serve dataCreated writePair).2 :=
  ⟨by decide, by decide, (transfers_exact rfl (.inl (by decide)) (x := 5) (by decide) (by decide) (by decide)
    (by decide)).1⟩

end Storage
