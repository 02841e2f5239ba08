/-
The frames of a request of the lite keymaster (the sending half of
bp_keymaster_call in lite/km4.1/common/beanpod_keymaster_ipc.cpp).

The loop keeps a cursor into the input and, apart from it, the count of the
bytes that remain. A frame is full as long as more remains than a frame holds,
and says with `KEYMASTER_STOP_BIT` that another follows, so an input of exact
multiples of a frame ends with a full frame and only an empty input has an
empty one.
-/
import Microtrust.Lib.Frames
import Microtrust.Lite.KeymasterPairing

namespace LiteKeymaster

open Lib Keymaster

/-! ## The loop -/

/-- A `keymaster_message` as it is written. -/
def frame (cmd : UInt32) (payload : Bytes) : Bytes := leBytes headerSize cmd.toNat ++ payload

/-- What sending comes to: its value, the frames written, and the state. -/
structure Writing where
  rc : Int
  frames : List Bytes
  st : State

/-- One frame is allocated and written. -/
def writeFrame (env : Env) (s : State) (cmd : UInt32) (payload : Bytes) : Writing :=
  match sendMessage env s cmd payload with
  | (rc, s) => ⟨rc, if rc < 0 then [] else [frame cmd payload], s⟩

/-- The loop, with its cursor `sendBuf` and its count `remaind`. -/
def writeFrames (env : Env) (cmd : UInt32) (input : Bytes) : Nat → Nat → UInt32 → State → Writing
  | 0, sendBuf, remaind, s => writeFrame env s cmd ((input.drop sendBuf).take remaind.toNat)
  | n + 1, sendBuf, remaind, s =>
    if maxSendBufSize < remaind.toNat then
      let w := writeFrame env s (cmd ||| stopBit) ((input.drop sendBuf).take maxSendBufSize)
      if w.rc < 0 then w
      else
        let rest := writeFrames env cmd input n (sendBuf + maxSendBufSize) (remaind - .ofNat maxSendBufSize) w.st
        { rest with frames := w.frames ++ rest.frames }
    else writeFrame env s cmd ((input.drop sendBuf).take remaind.toNat)

/-- What is passed to `bp_keymaster_call`: a command with the two low bits
clear, an input whose length fits 32 bits, and the room for the answer. -/
structure CallArgs where
  cmd : UInt32
  input : Bytes
  outMax : Nat
  clear : cmd &&& 3 = 0
  fits : input.length < 2 ^ 32

/-- The sending half of `bp_keymaster_call`. -/
def CallArgs.write (env : Env) (s : State) (c : CallArgs) : Writing :=
  if s.handle < 0 then ⟨Errno.neg .EINVAL, [], s⟩
  else writeFrames env c.cmd c.input c.input.length 0 (.ofNat c.input.length) s

/-- The whole call. -/
def CallArgs.run (env : Env) (s : State) (c : CallArgs) : State :=
  (bpKeymasterCall env s c.cmd c.input c.outMax).2.2

/-- The frames a sequence of calls writes, call by call. -/
def writtenBy (env : Env) : State → List CallArgs → List (List Bytes)
  | _, [] => []
  | s, c :: cs => (c.write env s).frames :: writtenBy env (c.run env s) cs

/-- Every allocation and every write of the sequence succeeds. -/
def AllWritten (env : Env) : State → List CallArgs → Prop
  | _, [] => True
  | s, c :: cs => 0 ≤ (c.write env s).rc ∧ AllWritten env (c.run env s) cs

variable {env : Env} {s : State} {cmd : UInt32} {input : Bytes}

theorem remaind_sub {remaind : UInt32} (h : maxSendBufSize < remaind.toNat) :
    (remaind - .ofNat maxSendBufSize).toNat = remaind.toNat - maxSendBufSize := by
  have hle : UInt32.ofNat maxSendBufSize ≤ remaind := by
    rw [UInt32.le_iff_toNat_le]
    exact Nat.le_of_lt h
  rw [UInt32.toNat_sub_of_le _ _ hle]
  rfl

theorem take_remaind {sendBuf : Nat} {remaind : UInt32} (h : sendBuf + remaind.toNat = input.length) :
    (input.drop sendBuf).take remaind.toNat = input.drop sendBuf := by
  have hleft : (input.drop sendBuf).length = remaind.toNat := by
    rw [List.length_drop]
    omega
  rw [← hleft, List.take_length]

/-- The loop with a cursor and a count is the loop over what is left. -/
theorem writeFrames_eq (n sendBuf : Nat) (remaind : UInt32) (s : State) (h : sendBuf + remaind.toNat = input.length) :
    ((writeFrames env cmd input n sendBuf remaind s).rc, (writeFrames env cmd input n sendBuf remaind s).st) =
      sendRequest env n s cmd (input.drop sendBuf) := by
  induction n generalizing sendBuf remaind s with
  | zero =>
    rw [writeFrames, take_remaind h]
    rfl
  | succ n ih =>
    have hleft : (input.drop sendBuf).length = remaind.toNat := by
      rw [List.length_drop]
      omega
    rw [writeFrames, sendRequest, hleft]
    by_cases hlong : maxSendBufSize < remaind.toNat
    · simp only [if_pos hlong]
      have hrest := fun s => ih (sendBuf + maxSendBufSize) (remaind - .ofNat maxSendBufSize) s (by
        rw [remaind_sub hlong]
        omega)
      cases hfirst : sendMessage env s (cmd ||| stopBit) ((input.drop sendBuf).take maxSendBufSize) with
      | mk rc s₁ =>
        simp only [writeFrame, hfirst]
        by_cases hneg : rc < 0
        · simp only [if_pos hneg]
        · simp only [if_neg hneg]
          rw [hrest s₁, List.drop_drop]
    · simp only [if_neg hlong]
      rw [take_remaind h]
      rfl

/-- What `bp_keymaster_call` sends is what the loop writes. -/
theorem CallArgs.write_eq (c : CallArgs) (h : 0 ≤ s.handle) :
    ((c.write env s).rc, (c.write env s).st) = sendRequest env c.input.length s c.cmd c.input := by
  have hsize : (UInt32.ofNat c.input.length).toNat = c.input.length := UInt32.toNat_ofNat_of_lt' c.fits
  have hn : ¬ s.handle < 0 := by omega
  rw [CallArgs.write, if_neg hn, writeFrames_eq _ _ _ _ (by omega), List.drop_zero]

/-! ## The frames of one request -/

theorem headerCmd_frame (cmd : UInt32) (payload : Bytes) : headerCmd (frame cmd payload) = cmd := by
  have hlt : cmd.toNat < 256 ^ headerSize := cmd.toNat_lt
  have htake : ((frame cmd payload).drop 0).take headerSize = leBytes headerSize cmd.toNat := by
    rw [List.drop_zero, frame, List.take_append_of_le_length (by simp), List.take_of_length_le (by simp)]
  rw [headerCmd, leAt, htake, le_leBytes_of_lt hlt, UInt32.ofNat_toNat]

theorem drop_frame (cmd : UInt32) (payload : Bytes) : (frame cmd payload).drop headerSize = payload := by
  rw [frame, List.drop_append_of_le_length (by simp), List.drop_of_length_le (by simp), List.nil_append]

/-- How the frames of a request are read: the stop bit says that more follows. -/
def framing : Framing Bytes UInt32 UInt8 where
  more := fun m => headerCmd m &&& stopBit != 0
  key := headerCmd
  body := (·.drop headerSize)

/-- The frames of a request as they should be. -/
structure Chunked (cmd : UInt32) (input : Bytes) (before : List Bytes) (last : Bytes) : Prop where
  marked : ∀ m ∈ before, headerCmd m = cmd ||| stopBit
  full : ∀ m ∈ before, (m.drop headerSize).length = maxSendBufSize
  header : headerCmd last = cmd
  short : (last.drop headerSize).length ≤ maxSendBufSize
  empty : last.drop headerSize = [] → input = []
  payload : (before ++ [last]).flatMap (·.drop headerSize) = input

/-- The last frame, when no more remains than it holds. -/
theorem chunked_last (h : input.length ≤ maxSendBufSize) : Chunked cmd input [] (frame cmd input) where
  marked := nofun
  full := nofun
  header := headerCmd_frame cmd input
  short := by rwa [drop_frame]
  empty := by
    intro hz
    rwa [drop_frame] at hz
  payload := by simp [drop_frame]

/-- A full frame before the frames of the rest, of which there is some. -/
theorem Chunked.cons {before : List Bytes} {last : Bytes} (hlong : maxSendBufSize < input.length)
    (h : Chunked cmd (input.drop maxSendBufSize) before last) :
    Chunked cmd input (frame (cmd ||| stopBit) (input.take maxSendBufSize) :: before) last where
  marked := by
    intro m hm
    rcases List.mem_cons.mp hm with rfl | hm
    · exact headerCmd_frame _ _
    · exact h.marked m hm
  full := by
    intro m hm
    rcases List.mem_cons.mp hm with rfl | hm
    · rw [drop_frame, List.length_take]
      omega
    · exact h.full m hm
  header := h.header
  short := h.short
  empty := by
    intro hz
    have hnil := congrArg List.length (h.empty hz)
    rw [List.length_drop, List.length_nil] at hnil
    omega
  payload := by
    rw [List.cons_append, List.flatMap_cons, h.payload, drop_frame, List.take_append_drop]

theorem writeFrame_frames {payload : Bytes} (h : 0 ≤ (writeFrame env s cmd payload).rc) :
    (writeFrame env s cmd payload).frames = [frame cmd payload] := if_neg (by exact Int.not_lt.mpr h)

/-- The loop writes frames as they should be, if nothing fails. -/
theorem writeFrames_chunked (n sendBuf : Nat) (remaind : UInt32) (s : State)
    (h : sendBuf + remaind.toNat = input.length) (hn : remaind.toNat ≤ n)
    (hrc : 0 ≤ (writeFrames env cmd input n sendBuf remaind s).rc) :
    ∃ before last, (writeFrames env cmd input n sendBuf remaind s).frames = before ++ [last] ∧
      Chunked cmd (input.drop sendBuf) before last := by
  induction n generalizing sendBuf remaind s with
  | zero =>
    rw [writeFrames, take_remaind h] at hrc ⊢
    refine ⟨[], _, writeFrame_frames hrc, chunked_last ?_⟩
    rw [List.length_drop]
    omega
  | succ n ih =>
    rw [writeFrames] at hrc ⊢
    by_cases hlong : maxSendBufSize < remaind.toNat
    · simp only [if_pos hlong] at hrc ⊢
      by_cases hneg : (writeFrame env s (cmd ||| stopBit) ((input.drop sendBuf).take maxSendBufSize)).rc < 0
      · rw [if_pos hneg] at hrc
        omega
      · rw [if_neg hneg] at hrc ⊢
        dsimp only at hrc
        have hpos : 0 < maxSendBufSize := by decide
        have hsub := remaind_sub hlong
        obtain ⟨before, last, hframes, hch⟩ := ih _ _ _ (by omega) (by omega) hrc
        rw [← List.drop_drop] at hch
        refine ⟨frame (cmd ||| stopBit) ((input.drop sendBuf).take maxSendBufSize) :: before, last, ?_, hch.cons ?_⟩
        · dsimp only
          rw [writeFrame_frames (Int.not_lt.mp hneg), hframes]
          rfl
        · rw [List.length_drop]
          omega
    · simp only [if_neg hlong] at hrc ⊢
      rw [take_remaind h] at hrc ⊢
      refine ⟨[], _, writeFrame_frames hrc, chunked_last ?_⟩
      rw [List.length_drop]
      omega

/-! ## The frames of a sequence of calls -/

/-- The request a call makes. -/
def CallArgs.request (c : CallArgs) : UInt32 × Bytes := (c.cmd, c.input)

theorem CallArgs.write_chunked (c : CallArgs) (h : 0 ≤ (c.write env s).rc) :
    ∃ before last, (c.write env s).frames = before ++ [last] ∧ Chunked c.cmd c.input before last := by
  have hsize : (UInt32.ofNat c.input.length).toNat = c.input.length := UInt32.toNat_ofNat_of_lt' c.fits
  unfold CallArgs.write at h ⊢
  split at h
  · exact absurd h (Int.not_le.mpr (Errno.neg_lt _))
  next hn =>
    rw [if_neg hn]
    exact writeFrames_chunked c.input.length 0 _ s (by omega) (by omega) h

/-- With the two low bits clear, the last frame of a request has no mark. -/
theorem stop_clear (h : cmd &&& 3 = 0) : cmd &&& stopBit = 0 := by
  have hand : cmd &&& stopBit = (cmd &&& 3) &&& stopBit := by
    rw [UInt32.and_assoc]
    rfl
  rw [hand, h]
  rfl

theorem Chunked.isMessage {before : List Bytes} {last : Bytes} (h : Chunked cmd input before last)
    (hclear : cmd &&& 3 = 0) : framing.IsMessage (cmd, input) (before ++ [last]) := by
  refine ⟨before, last, rfl, ?_, ?_, h.header, h.payload⟩
  · intro m hm
    have hmark : headerCmd m &&& stopBit ≠ 0 := by
      rw [h.marked m hm]
      exact stop_or cmd
    exact bne_iff_ne.mpr hmark
  · have hmark : headerCmd last &&& stopBit = 0 := by rw [h.header, stop_clear hclear]
    exact bne_eq_false_iff_eq.mpr hmark

theorem writtenBy_messages {cs : List CallArgs} (h : AllWritten env s cs) :
    List.Forall₂ framing.IsMessage (cs.map CallArgs.request) (writtenBy env s cs) := by
  induction cs generalizing s with
  | nil => exact .nil
  | cons c cs ih =>
    obtain ⟨before, last, hframes, hch⟩ := c.write_chunked h.1
    refine .cons ?_ (ih h.2)
    rw [hframes]
    exact hch.isMessage c.clear

/-- **The frames of a sequence of calls are read as its requests, and as no
other.** Call by call, every frame but the last is full and marked, the last has
the command without the mark and holds what is left, and nothing is left only of
an empty input. -/
theorem requests_decodable {cs : List CallArgs} (h : AllWritten env s cs) :
    framing.decode [] (writtenBy env s cs).flatten = cs.map CallArgs.request ∧
      (∀ env' s' cs', AllWritten env' s' cs' → (writtenBy env' s' cs').flatten = (writtenBy env s cs).flatten →
        cs'.map CallArgs.request = cs.map CallArgs.request) ∧
      List.Forall₂ (fun c frames => ∃ before last, frames = before ++ [last] ∧ Chunked c.cmd c.input before last) cs
        (writtenBy env s cs) := by
  refine ⟨Framing.decode_stream (writtenBy_messages h), ?_, ?_⟩
  · intro env' s' cs' h' heq
    exact Framing.stream_unique (writtenBy_messages h') (writtenBy_messages h) heq
  · induction cs generalizing s with
    | nil => exact .nil
    | cons c cs ih => exact .cons (c.write_chunked h.1) (ih h.2)

/-! ## Nothing fails -/

theorem sendRequest_handle (n : Nat) (s : State) (input : Bytes) :
    (sendRequest env n s cmd input).2.handle = s.handle := by
  have hone (s : State) (cmd : UInt32) (payload : Bytes) : (sendMessage env s cmd payload).2.handle = s.handle := by
    cases hsend : sendMessage env s cmd payload with
    | mk rc s' =>
      rcases sendMessage_cases hsend with ⟨-, hq⟩ | ⟨-, t, hq, -, -, rfl⟩
      · exact hq.handle
      · exact (quiet_deliver env t cmd payload).handle.trans hq.handle
  induction n generalizing s input with
  | zero => exact hone s cmd input
  | succ n ih =>
    rw [sendRequest]
    split
    · dsimp only
      split
      · exact hone ..
      · rw [ih]
        exact hone ..
    · exact hone ..

theorem CallArgs.run_handle (c : CallArgs) : (c.run env s).handle = s.handle := by
  unfold CallArgs.run bpKeymasterCall
  split
  · rfl
  · have hsend : (sendRequest env c.input.length s c.cmd c.input).2.handle = s.handle := sendRequest_handle ..
    dsimp only
    split
    · exact hsend
    · exact hsend

/-- Where every allocation and every write succeeds, every sequence is written. -/
theorem allWritten_of_done (hmalloc : ∀ i, env.malloc i = true) (hwrite : ∀ i, env.write i = .done)
    (hh : 0 ≤ s.handle) (cs : List CallArgs) : AllWritten env s cs := by
  have hone (s : State) (cmd : UInt32) (payload : Bytes) : (writeFrame env s cmd payload).rc = 0 := by
    simp [writeFrame, sendMessage, hmalloc, hwrite]
  have hloop (cmd : UInt32) (input : Bytes) (n sendBuf : Nat) (remaind : UInt32) (s : State) :
      (writeFrames env cmd input n sendBuf remaind s).rc = 0 := by
    induction n generalizing sendBuf remaind s with
    | zero => exact hone ..
    | succ n ih =>
      rw [writeFrames]
      split
      · dsimp only
        rw [hone, if_neg (by decide)]
        exact ih ..
      · exact hone ..
  induction cs generalizing s with
  | nil => trivial
  | cons c cs ih =>
    refine ⟨?_, ih (by rw [c.run_handle]; exact hh)⟩
    have hn : ¬ s.handle < 0 := by omega
    rw [CallArgs.write, if_neg hn, hloop]

/-- An empty request and one that takes two frames. -/
def twoCalls : List CallArgs :=
  [⟨4, [], 64, by decide, by decide⟩, ⟨8, List.replicate 3073 7, 64, by decide, by rw [List.length_replicate]; decide⟩]

theorem twoCalls_decodable :
    framing.decode [] (writtenBy steady { handle := 3 } twoCalls).flatten = twoCalls.map CallArgs.request :=
  (requests_decodable (allWritten_of_done (fun _ => rfl) (fun _ => rfl) (by decide) twoCalls)).1

end LiteKeymaster
