/-
Module: Rpi4Kernel.Proofs.ChainLoaderSpec
Layer: Proofs
Purpose: The two ends of the chain loader stay in step whatever the order of their steps and however
  often the host connects. The image that the receiver starts is the file of the last session, cut to
  the length that four bytes can tell, and its entry point is read from the image alone; a session
  with a file that exists ends, with the image received or with a size that the receiver refuses.
Trusted boundary: none (fully proved)
Main exports: sizeBytes, InStep, inStep_step, inStep_of_run, chainLoader_image, chainLoader_ends
-/
import Mathlib.Tactic.IntervalCases
import Rpi4Kernel.Theory.Runs
import Rpi4Kernel.Theory.Transfer
import Rpi4Kernel.Tools.ChainLoader

namespace Rpi4Kernel.Tools

open Rpi4Kernel.Theory

variable {s s₀ s' : ChainLoader} {file : List UInt8} {files : Bool}

/-! ### The size -/

/-- The four bytes of the size of a file. -/
def sizeBytes (size : Nat) : List UInt8 :=
  [lowByte size, lowByte (size >>> 8), lowByte (size >>> 16), lowByte (size >>> 24)]

/-- The size that the receiver gets to know. -/
def sentSize (file : List UInt8) : BitVec 32 := BitVec.ofNat 32 file.length

theorem lowByte_toBitVec (size : Nat) : (lowByte size).toBitVec = BitVec.ofNat 8 size := by
  apply BitVec.eq_of_toNat_eq
  simp [lowByte, Nat.and_two_pow_sub_one_eq_mod size 8]

theorem sizeBytes_drop {size written : Nat} (h : written < 4) :
    (sizeBytes size).drop written =
      lowByte (size >>> (8 * written)) :: (sizeBytes size).drop (written + 1) := by
  interval_cases written <;> rfl

/-- The size when the first `read` bytes have been read. -/
def partialSize (size read : Nat) : BitVec 32 := BitVec.ofNat 32 (size % 256 ^ read)

theorem addSizeByte_zero (old : BitVec 32) (size : Nat) :
    addSizeByte old 0 (lowByte size) = partialSize size 1 := by
  apply BitVec.eq_of_toNat_eq
  simp [addSizeByte, partialSize, lowByte_toBitVec]

theorem partialSize_getLsbD (size read i : Nat) :
    (partialSize size read).getLsbD i =
    (decide (i < 32) && (decide (i < 8 * read) && size.testBit i)) := by
  have hpow : 256 ^ read = 2 ^ (8 * read) := by norm_num [pow_mul]
  rw [partialSize, BitVec.getLsbD_ofNat, hpow, Nat.testBit_mod_two_pow]

/-- The next byte of the size. -/
theorem addSizeByte_succ {size read : Nat} (hpos : 0 < read) :
    addSizeByte (partialSize size read) read (lowByte (size >>> (8 * read))) =
      partialSize size (read + 1) := by
  rw [addSizeByte, if_neg hpos.ne', lowByte_toBitVec]
  apply BitVec.eq_of_getLsbD_eq
  intro i hi
  rw [BitVec.getLsbD_or, partialSize_getLsbD, partialSize_getLsbD, BitVec.getLsbD_shiftLeft,
    BitVec.getLsbD_setWidth, BitVec.getLsbD_ofNat, Nat.testBit_shiftRight]
  rcases Nat.lt_or_ge i (8 * read) with hlt | hge
  · have hlt' : i < 8 * (read + 1) := by omega
    simp [hi, hlt, hlt']
  · have hindex : 8 * read + (i - 8 * read) = i := by omega
    have hbyte : i - 8 * read < 8 ↔ i < 8 * (read + 1) := by omega
    have hwidth : i - 8 * read < 32 := by omega
    simp [hi, hge.not_gt, hindex, hbyte, hwidth]

theorem partialSize_four (size : Nat) : partialSize size 4 = BitVec.ofNat 32 size := by
  apply BitVec.eq_of_toNat_eq
  simp [partialSize]

/-! ### What holds between the steps -/

/-- The receiver sends `n` more bytes 3 before it waits for a size. -/
def Receiver.Owes (r : Receiver) (n : Nat) : Prop :=
  (∃ sent, r.point = .notify sent ∧ sent + n = 3 ∧ 0 < n) ∨ r.point = .readSize 0 ∧ n = 0

/-- The host is in no session, or waits for the receiver. A session ends when there is no file, or
    with a file whose size is refused. `files` is whether all sessions have had a file. -/
inductive Host.Waits (files : Bool) (h : Host) : Prop where
  | idle (point : h.point = .idle)
  | skip (point : h.point = .skip) (hasFile : files = true → h.file ≠ none)
  | noFile (point : h.point = .ended .noFile) (missing : files = false)
  | refused (point : h.point = .ended .sizeError) (file : List UInt8)
      (hasFile : h.file = some file) (tooBig : sizeError (sentSize file) = true)

/-- Where the receiver is when it stores the image. -/
def Receiver.Stores (r : Receiver) (file : List UInt8) : Prop :=
  sizeError (sentSize file) = false ∧
    (r.point = .readImage ∧ r.image.length + r.size.toNat = (sentSize file).toNat ∨
      r.point = .received ∧ r.image.length = (sentSize file).toNat)

/-- The places where the receiver and the host can be together, with what is on the line then. -/
inductive InStep (files : Bool) (s : ChainLoader) : Prop where
  /-- The receiver announces itself. -/
  | greeting (waits : s.host.Waits files) (junk : List UInt8) (k n : Nat) (noThree : 3 ∉ junk)
      (toHost : s.line.toHost = junk ++ List.replicate k 3) (sum : k + n = 3) (owes : s.board.Owes n)
      (toBoard : s.line.toBoard = []) (image : s.board.image = [])
  /-- The host has seen the first 3. -/
  | greeted (point : s.host.point = .readTwo) (hasFile : files = true → s.host.file ≠ none) (k n : Nat)
      (toHost : s.line.toHost = List.replicate k 3) (sum : k + n = 2) (owes : s.board.Owes n)
      (toBoard : s.line.toBoard = []) (image : s.board.image = [])
  /-- There was no file, and the receiver waits for a size that does not come. -/
  | silent (missing : files = false) (waits : s.host.Waits files) (toHost : s.line.toHost = []) 
      (toBoard : s.line.toBoard = []) (point : s.board.point = .readSize 0) (image : s.board.image = [])
  /-- The size is sent. -/
  | sizing (file : List UInt8) (hasFile : s.host.file = some file) (read written : Nat)
      (host : s.host.point = .writeSize written ∧ s.host.size = file.length >>> (8 * written) ∧
        written < 4 ∨ s.host.point = .readAnswer ∧ written = 4)
      (point : s.board.point = .readSize read) (lt : read < 4)
      (size : 0 < read → s.board.size = partialSize file.length read)
      (transfer : Transfer (sizeBytes file.length) ((sizeBytes file.length).take read) s.line.toBoard
        ((sizeBytes file.length).drop written))
      (toHost : s.line.toHost = []) (image : s.board.image = [])
  /-- The size is known. -/
  | testing (file : List UInt8) (hasFile : s.host.file = some file) (host : s.host.point = .readAnswer)
      (point : s.board.point = .testSize) (size : s.board.size = sentSize file)
      (toHost : s.line.toHost = []) (toBoard : s.line.toBoard = []) (image : s.board.image = [])
  | refusing (file : List UInt8) (hasFile : s.host.file = some file) (host : s.host.point = .readAnswer)
      (point : s.board.point = .sendE) (error : sizeError (sentSize file) = true)
      (toHost : s.line.toHost = ['S'.toUInt8]) (toBoard : s.line.toBoard = [])
        (image : s.board.image = [])
  /-- The size is refused, and the receiver announces itself again. -/
  | refused (file : List UInt8) (hasFile : s.host.file = some file) (host : s.host.point = .readAnswer)
      (error : sizeError (sentSize file) = true) (k n : Nat)
      (toHost : s.line.toHost = 'S'.toUInt8 :: 'E'.toUInt8 :: List.replicate k 3) (sum : k + n = 3)
      (owes : s.board.Owes n) (toBoard : s.line.toBoard = []) (image : s.board.image = [])
  | accepting (file : List UInt8) (hasFile : s.host.file = some file)
    (host : s.host.point = .readAnswer)
      (point : s.board.point = .sendK) (error : sizeError (sentSize file) = false)
      (size : s.board.size = sentSize file) (toHost : s.line.toHost = ['O'.toUInt8])
      (toBoard : s.line.toBoard = []) (image : s.board.image = [])
  | accepted (file : List UInt8) (hasFile : s.host.file = some file) (host : s.host.point = .readAnswer)
      (point : s.board.point = .readImage) (error : sizeError (sentSize file) = false)
      (size : s.board.size = sentSize file) (toHost : s.line.toHost = ['O'.toUInt8, 'K'.toUInt8])
      (toBoard : s.line.toBoard = []) (image : s.board.image = [])
  /-- The image is sent. -/
  | sending (file : List UInt8) (hasFile : s.host.file = some file) (left : List UInt8)
      (host : (∃ buffer unread, s.host.point = .send buffer unread ∧ left = buffer ++ unread) ∨
        s.host.point = .console ∧ left = [])
      (stores : s.board.Stores file) (transfer : Transfer file s.board.image s.line.toBoard left)
      (toHost : s.line.toHost = [])

theorem InStep.of_fresh (h₀ : s₀.Fresh) : InStep files s₀ :=
  .greeting (.idle h₀.host) s₀.line.toHost 0 3 h₀.toHost (by simp) rfl
    (.inl ⟨0, h₀.point, rfl, by decide⟩) h₀.toBoard h₀.image

/-! ### Steps of the receiver -/

variable {r r' : Receiver} {h h' : Host} {line line' : SerialLine}

/-- The receiver sends a 3, or waits for a size. -/
theorem Receiver.Owes.step {n : Nat} (howes : r.Owes n) (hline : line.toBoard = [])
    (hs : receiverStep r line = some (r', line')) :
    ∃ m, n = m + 1 ∧ r'.Owes m ∧ r'.image = r.image ∧ line' = line.uartSend 3 := by
  obtain ⟨sent, hpoint, hsum, hpos⟩ | ⟨hpoint, -⟩ := howes
  · rw [receiverStep, hpoint] at hs
    cases hs
    refine ⟨n - 1, by omega, ?_, rfl, rfl⟩
    cases Nat.lt_or_ge sent 2 with
    | inl hlt =>
      left
      exact ⟨sent + 1, if_neg (by omega), by omega, by omega⟩
    | inr hge =>
      right
      exact ⟨if_pos (by omega), by omega⟩
  · rw [receiverStep, hpoint, hline] at hs
    cases hs

theorem Receiver.Owes.readSize (howes : r.Owes 0) : r.point = .readSize 0 := by
  obtain ⟨_, _, _, hpos⟩ | ⟨hpoint, -⟩ := howes
  · exact absurd hpos (lt_irrefl 0)
  · exact hpoint

/-- The receiver reads a byte of the size. -/
theorem receiverStep_readSize {read : Nat} (hpoint : r.point = .readSize read)
    (hs : receiverStep r line = some (r', line')) :
    ∃ c rest, line.toBoard = c :: rest ∧ line' = { line with toBoard := rest } ∧
      r'.point = (if read + 1 = 4 then .testSize else .readSize (read + 1)) ∧
      r'.size = addSizeByte r.size read c ∧ r'.image = r.image := by
  rw [receiverStep, hpoint] at hs
  cases hline : line.toBoard with
  | nil =>
    rw [hline] at hs
    cases hs
  | cons c rest =>
    rw [hline] at hs
    cases hs
    exact ⟨c, rest, rfl, rfl, rfl, rfl, rfl⟩

/-- The receiver stores the image, or has stored it. -/
theorem Receiver.Stores.step {left : List UInt8} (hstores : r.Stores file)
    (htransfer : Transfer file r.image line.toBoard left)
    (hs : receiverStep r line = some (r', line')) :
    r'.Stores file ∧ Transfer file r'.image line'.toBoard left ∧ line'.toHost = line.toHost := by
  obtain ⟨herror, ⟨hpoint, hlength⟩ | ⟨hpoint, -⟩⟩ := hstores
  · rw [receiverStep, hpoint] at hs
    cases decEq r.size 0 with
    | isTrue hzero =>
      rw [if_pos hzero] at hs
      cases hs
      rw [hzero] at hlength
      exact ⟨⟨herror, .inr ⟨rfl, hlength⟩⟩, htransfer, rfl⟩
    | isFalse hpos =>
      rw [if_neg hpos] at hs
      cases hline : line.toBoard with
      | nil =>
        rw [hline] at hs
        cases hs
      | cons c rest =>
        rw [hline] at hs htransfer
        cases hs
        refine ⟨⟨herror, .inl ⟨rfl, ?_⟩⟩, htransfer.receive, rfl⟩
        have hne : r.size.toNat ≠ 0 := fun heq => hpos (BitVec.eq_of_toNat_eq heq)
        have hsub : (r.size - 1).toNat = r.size.toNat - 1 := by
          rw [BitVec.toNat_sub_of_le]
          · rfl
          · rw [BitVec.le_def]
            exact Nat.one_le_iff_ne_zero.mpr hne
        rw [List.length_append, List.length_singleton, hsub]
        omega
  · rw [receiverStep, hpoint] at hs
    cases hs

/-- The byte that is read is the one that has its turn. -/
theorem sizeBytes_received {size read : Nat} {c : UInt8} {rest left : List UInt8} (hread : read < 4)
    (htransfer : Transfer (sizeBytes size) ((sizeBytes size).take read) (c :: rest) left) :
    c = lowByte (size >>> (8 * read)) ∧
      Transfer (sizeBytes size) ((sizeBytes size).take (read + 1)) rest left := by
  have hwhole : (sizeBytes size).take read ++ (c :: rest ++ left) =
      (sizeBytes size).take read ++ (sizeBytes size).drop read :=
    htransfer.trans (List.take_append_drop read _).symm
  rw [List.append_cancel_left_eq, sizeBytes_drop hread] at hwhole
  have hc := (List.cons.inj hwhole).1
  refine ⟨hc, ?_⟩
  have htake : (sizeBytes size).take (read + 1) = (sizeBytes size).take read ++ [c] := by
    rw [List.take_add, sizeBytes_drop hread, ← hc]
    rfl
  rw [htake]
  exact htransfer.receive

theorem size_ne_zero (herror : sizeError (sentSize file) = false) : sentSize file ≠ 0 := by
  intro hzero
  rw [hzero] at herror
  exact absurd herror (by decide)

theorem InStep.sizing_receive (hasFile : s.host.file = some file) {read written : Nat}
    (host : s.host.point = .writeSize written ∧ s.host.size = file.length >>> (8 * written) ∧
      written < 4 ∨ s.host.point = .readAnswer ∧ written = 4)
    (point : s.board.point = .readSize read) (lt : read < 4)
    (size : 0 < read → s.board.size = partialSize file.length read)
    (transfer : Transfer (sizeBytes file.length) ((sizeBytes file.length).take read) s.line.toBoard
      ((sizeBytes file.length).drop written))
    (toHost : s.line.toHost = []) (image : s.board.image = [])
    (hs : receiverStep s.board s.line = some (r', line')) :
    InStep files { s with board := r', line := line' } := by
  obtain ⟨c, rest, hline, rfl, hpoint, hsize, himage⟩ := receiverStep_readSize point hs
  rw [hline] at transfer
  obtain ⟨hc, hnext⟩ := sizeBytes_received lt transfer
  have hsize' : r'.size = partialSize file.length (read + 1) := by
    rw [hsize, hc]
    cases read with
    | zero => exact addSizeByte_zero _ _
    | succ read => rw [size (Nat.succ_pos _), addSizeByte_succ (Nat.succ_pos _)]
  cases Nat.lt_or_ge (read + 1) 4 with
  | inl hlt =>
    refine .sizing file hasFile (read + 1) written host ?_ hlt (fun _ => hsize') hnext toHost
      (himage.trans image)
    rw [hpoint, if_neg hlt.ne]
  | inr hge =>
    have hfour : read + 1 = 4 := by omega
    rw [hfour] at hnext hsize'
    obtain ⟨hrest, hleft⟩ := hnext.wire_eq_nil rfl
    refine .testing file hasFile ?_ (hpoint.trans (if_pos hfour))
      (hsize'.trans (partialSize_four _)) toHost
      hrest (himage.trans image)
    obtain ⟨-, -, hlt⟩ | ⟨hanswer, -⟩ := host
    · rw [sizeBytes_drop hlt] at hleft
      cases hleft
    · exact hanswer

/-- A step of the receiver. -/
theorem InStep.board (h : InStep files s) (hs : receiverStep s.board s.line = some (r', line')) :
    InStep files { s with board := r', line := line' } := by
  cases h with
  | greeting waits junk k n noThree toHost sum owes toBoard image =>
    obtain ⟨m, rfl, howes, himage, rfl⟩ := owes.step toBoard hs
    refine .greeting waits junk (k + 1) m noThree ?_ (by omega) howes toBoard (himage.trans image)
    rw [SerialLine.uartSend, toHost, List.append_assoc, ← List.replicate_succ']
  | greeted point hasFile k n toHost sum owes toBoard image =>
    obtain ⟨m, rfl, howes, himage, rfl⟩ := owes.step toBoard hs
    refine .greeted point hasFile (k + 1) m ?_ (by omega) howes toBoard (himage.trans image)
    rw [SerialLine.uartSend, toHost, ← List.replicate_succ']
  | silent missing waits toHost toBoard point image =>
    obtain ⟨c, rest, hline, -⟩ := receiverStep_readSize point hs
    rw [toBoard] at hline
    cases hline
  | sizing file hasFile read written host point lt size transfer toHost image =>
    exact .sizing_receive hasFile host point lt size transfer toHost image hs
  | testing file hasFile host point size toHost toBoard image =>
    rw [receiverStep, point, size] at hs
    cases herror : sizeError (sentSize file) with
    | true =>
      rw [herror] at hs
      cases hs
      exact .refusing file hasFile host rfl herror (by simp [SerialLine.uartSend, toHost]) toBoard image
    | false =>
      rw [herror] at hs
      cases hs
      exact .accepting file hasFile host rfl herror rfl (by simp [SerialLine.uartSend, toHost])
        toBoard image
  | refusing file hasFile host point error toHost toBoard image =>
    rw [receiverStep, point] at hs
    cases hs
    refine .refused file hasFile host error 0 3 ?_ rfl (.inl ⟨0, rfl, rfl, by decide⟩) toBoard image
    simp [SerialLine.uartSend, toHost]
  | refused file hasFile host error k n toHost sum owes toBoard image =>
    obtain ⟨m, rfl, howes, himage, rfl⟩ := owes.step toBoard hs
    refine .refused file hasFile host error (k + 1) m ?_ (by omega) howes toBoard (himage.trans image)
    rw [SerialLine.uartSend, toHost, List.replicate_succ']
    rfl
  | accepting file hasFile host point error size toHost toBoard image =>
    rw [receiverStep, point] at hs
    cases hs
    exact .accepted file hasFile host rfl error size (by simp [SerialLine.uartSend, toHost])
      toBoard image
  | accepted file hasFile host point error size toHost toBoard image =>
    -- the receiver waits for the first byte of the image
    rw [receiverStep, point, size, if_neg (size_ne_zero error), toBoard] at hs
    cases hs
  | sending file hasFile left host stores transfer toHost =>
    obtain ⟨hstores, htransfer, hline⟩ := stores.step transfer hs
    exact .sending file hasFile left host hstores htransfer (hline.trans toHost)

/-! ### Steps of the host -/

theorem Host.Waits.hasFile (hwaits : h.Waits files) (hskip : h.point = .skip) :
    files = true → h.file ≠ none := by
  cases hwaits with
  | skip _ hasFile => exact hasFile
  | idle point | noFile point | refused point =>
    rw [hskip] at point
    cases point

/-- A host that waits does nothing but skip bytes other than 3. -/
theorem Host.Waits.step {count : Nat} (hwaits : h.Waits files)
    (hs : hostStep count h line = some (h', line')) :
    h.point = .skip ∧ ∃ c rest, line.toHost = c :: rest ∧ line' = { line with toHost := rest } ∧
      h' = { h with point := if c = 3 then .readTwo else .skip } := by
  cases hwaits with
  | idle point =>
    rw [hostStep, point] at hs
    cases hs
  | skip point hasFile =>
    rw [hostStep, point] at hs
    cases hline : line.toHost with
    | nil =>
      rw [hline] at hs
      cases hs
    | cons c rest =>
      rw [hline] at hs
      cases hs
      exact ⟨point, c, rest, rfl, rfl, rfl⟩
  | noFile point =>
    rw [hostStep, point] at hs
    cases hs
  | refused point =>
    rw [hostStep, point] at hs
    cases hs

/-- Two bytes are read at once. -/
theorem hostStep_short {count : Nat} (point : h.point = .readTwo ∨ h.point = .readAnswer)
    (hshort : line.toHost.length < 2) : hostStep count h line = none := by
  obtain ⟨toHost, toBoard⟩ := line
  match toHost, hshort with
  | [], _ =>
    cases point with
    | inl hpoint | inr hpoint => rw [hostStep, hpoint]
  | [c], _ =>
    cases point with
    | inl hpoint | inr hpoint => rw [hostStep, hpoint]

theorem hostStep_two {count : Nat} (point : h.point = .readTwo ∨ h.point = .readAnswer)
    (hs : hostStep count h line = some (h', line')) : ∃ c d rest, line.toHost = [c, d] ++ rest := by
  cases Nat.lt_or_ge line.toHost.length 2 with
  | inl hlt =>
    rw [hostStep_short point hlt] at hs
    cases hs
  | inr hge =>
    match hline : line.toHost, hge with
    | c :: d :: rest, _ => exact ⟨c, d, rest, rfl⟩

theorem InStep.host_sizing {count : Nat} (hasFile : s.host.file = some file) {read written : Nat}
    (host : s.host.point = .writeSize written ∧ s.host.size = file.length >>> (8 * written) ∧
      written < 4 ∨ s.host.point = .readAnswer ∧ written = 4)
    (point : s.board.point = .readSize read) (lt : read < 4)
    (size : 0 < read → s.board.size = partialSize file.length read)
    (transfer : Transfer (sizeBytes file.length) ((sizeBytes file.length).take read) s.line.toBoard
      ((sizeBytes file.length).drop written))
    (toHost : s.line.toHost = []) (image : s.board.image = [])
    (hs : hostStep count s.host s.line = some (h', line')) :
    InStep files { s with host := h', line := line' } := by
  obtain ⟨hpoint, hsize, hlt⟩ | ⟨hpoint, -⟩ := host
  · rw [hostStep, hpoint] at hs
    cases hs
    rw [sizeBytes_drop hlt, ← hsize] at transfer
    refine .sizing file hasFile read (written + 1) ?_ point lt size transfer.send toHost image
    cases Nat.lt_or_ge (written + 1) 4 with
    | inl hnext =>
      left
      refine ⟨if_neg hnext.ne, ?_, hnext⟩
      show (if written + 1 = 4 then _ else _) = _
      rw [if_neg hnext.ne, hsize, ← Nat.shiftRight_add]
      rfl
    | inr hdone =>
      right
      have hfour : written + 1 = 4 := by omega
      exact ⟨if_pos hfour, hfour⟩
  · rw [hostStep_short (.inr hpoint) (by rw [toHost]; decide)] at hs
    cases hs

/-- The image is sent byte by byte, in pieces of what is read from the file. -/
theorem InStep.host_sending {count : Nat} (hasFile : s.host.file = some file) {left : List UInt8}
    (host : (∃ buffer unread, s.host.point = .send buffer unread ∧ left = buffer ++ unread) ∨
      s.host.point = .console ∧ left = [])
    (stores : s.board.Stores file) (transfer : Transfer file s.board.image s.line.toBoard left)
    (toHost : s.line.toHost = []) (hs : hostStep count s.host s.line = some (h', line')) :
    InStep files { s with host := h', line := line' } := by
  obtain ⟨buffer, unread, hpoint, rfl⟩ | ⟨hpoint, rfl⟩ := host
  · rw [hostStep, hpoint] at hs
    cases buffer with
    | cons c buffer =>
      cases hs
      exact .sending file hasFile (buffer ++ unread) (.inl ⟨buffer, unread, rfl, rfl⟩) stores
        (Transfer.send transfer) toHost
    | nil =>
      cases unread with
      | nil =>
        cases hs
        exact .sending file hasFile [] (.inr ⟨rfl, rfl⟩) stores transfer toHost
      | cons c unread =>
        simp only [Option.ite_none_right_eq_some] at hs
        cases hs.2
        refine .sending file hasFile (c :: unread) (.inl ⟨_, _, rfl, ?_⟩) stores transfer toHost
        exact (List.take_append_drop count _).symm
  · rw [hostStep, hpoint, toHost] at hs
    cases hs

/-- A step of the host. -/
theorem InStep.host {count : Nat} (hin : InStep files s)
    (hs : hostStep count s.host s.line = some (h', line')) :
    InStep files { s with host := h', line := line' } := by
  cases hin with
  | greeting waits junk k n noThree toHost sum owes toBoard image =>
    obtain ⟨hskip, c, rest, hline, rfl, rfl⟩ := waits.step hs
    rw [toHost] at hline
    cases junk with
    | cons d junk =>
      cases hline
      have hne : c ≠ 3 := fun heq => noThree (by simp [heq])
      refine .greeting (.skip (if_neg hne) (waits.hasFile hskip)) junk k n ?_ rfl sum owes toBoard image
      exact fun hmem => noThree (List.mem_cons_of_mem _ hmem)
    | nil =>
      cases k with
      | zero => cases hline
      | succ k =>
        cases hline
        exact .greeted (by simp) (waits.hasFile hskip) k n rfl (by omega) owes toBoard image
  | greeted point hasFile k n toHost sum owes toBoard image =>
    cases Nat.lt_or_ge k 2 with
    | inl hlt =>
      rw [hostStep_short (.inl point) (by rw [toHost, List.length_replicate]; exact hlt)] at hs
      cases hs
    | inr hge =>
      have hk : k = 2 := by omega
      have hn : n = 0 := by omega
      rw [hk] at toHost
      rw [hn] at owes
      rw [hostStep, point, toHost] at hs
      cases hfile : s.host.file with
      | none =>
        rw [hfile] at hs
        cases hs
        have hmissing : files = false := by simpa [hfile] using hasFile
        exact .silent hmissing (.noFile rfl hmissing) rfl toBoard owes.readSize image
      | some file =>
        rw [hfile] at hs
        cases hs
        refine .sizing file rfl 0 0 (.inl ⟨rfl, rfl, by decide⟩) owes.readSize
          (by decide) nofun ?_ rfl image
        rw [toBoard]
        exact .start _
  | silent missing waits toHost toBoard point image =>
    obtain ⟨-, c, rest, hline, -⟩ := waits.step hs
    rw [toHost] at hline
    cases hline
  | sizing file hasFile read written host point lt size transfer toHost image =>
    exact .host_sizing hasFile host point lt size transfer toHost image hs
  | testing file hasFile host point size toHost toBoard image =>
    rw [hostStep_short (.inr host) (by rw [toHost]; decide)] at hs
    cases hs
  | refusing file hasFile host point error toHost toBoard image =>
    rw [hostStep_short (.inr host) (by rw [toHost]; decide)] at hs
    cases hs
  | refused file hasFile host error k n toHost sum owes toBoard image =>
    rw [hostStep, host, toHost] at hs
    cases hs
    exact .greeting (.refused rfl file hasFile error) [] k n (by simp) rfl sum owes toBoard image
  | accepting file hasFile host point error size toHost toBoard image =>
    rw [hostStep_short (.inr host) (by rw [toHost]; decide)] at hs
    cases hs
  | accepted file hasFile host point error size toHost toBoard image =>
    rw [hostStep, host, toHost] at hs
    cases hs
    refine .sending file hasFile file (.inl ⟨[], file, ?_, rfl⟩) ⟨error, .inl ⟨point, ?_⟩⟩ ?_ rfl
    · simp [hasFile]
    · simp [image, size]
    · rw [image, toBoard]
      exact .start file
  | sending file hasFile left host stores transfer toHost =>
    exact .host_sending hasFile host stores transfer toHost hs

/-- The host connects again. -/
theorem InStep.connect (hin : InStep files s) (hresting : s.host.point.resting = true)
    {file : Option (List UInt8)} (hfile : files = true → file ≠ none) :
    InStep files { s with host := { point := .skip, file := file, size := 0 } } := by
  cases hin with
  | greeting waits junk k n noThree toHost sum owes toBoard image =>
    exact .greeting (.skip rfl hfile) junk k n noThree toHost sum owes toBoard image
  | silent missing waits toHost toBoard point image =>
    exact .silent missing (.skip rfl hfile) toHost toBoard point image
  | greeted point =>
    rw [point] at hresting
    cases hresting
  | sizing _ _ _ _ host =>
    obtain ⟨hpoint, -⟩ | ⟨hpoint, -⟩ := host
    · rw [hpoint] at hresting
      cases hresting
    · rw [hpoint] at hresting
      cases hresting
  | sending _ _ _ host =>
    obtain ⟨_, _, hpoint, -⟩ | ⟨hpoint, -⟩ := host
    · rw [hpoint] at hresting
      cases hresting
    · rw [hpoint] at hresting
      cases hresting
  | testing _ _ host | refusing _ _ host | refused _ _ host | accepting _ _ host | accepted _ _ host =>
    rw [host] at hresting
    cases hresting

/-! ### Runs -/

/-- The host connects with files that exist only. -/
def withFile (_ : ChainLoader) : LoaderEvent → Bool
  | .connect none => false
  | _ => true

theorem inStep_step {e : LoaderEvent} (hin : InStep files s) (hok : files = true → withFile s e = true)
    (hs : chainLoaderStep s e = some s') : InStep files s' := by
  cases e with
  | connect file =>
    rw [chainLoaderStep, Option.ite_none_right_eq_some] at hs
    obtain ⟨hresting, hs⟩ := hs
    cases hs
    apply hin.connect hresting
    intro hfiles hnone
    rw [hnone] at hok
    exact absurd (hok hfiles) (by simp [withFile])
  | host count =>
    rw [chainLoaderStep, Option.map_eq_some_iff] at hs
    obtain ⟨⟨h', line'⟩, hstep, rfl⟩ := hs
    exact hin.host hstep
  | board =>
    rw [chainLoaderStep, Option.map_eq_some_iff] at hs
    obtain ⟨⟨r', line'⟩, hstep, rfl⟩ := hs
    exact hin.board hstep

theorem inStep_of_run (h₀ : s₀.Fresh) (hrun : Run chainLoaderStep s₀ s) : InStep false s :=
  hrun.invariant (.of_fresh h₀) fun _ _ _ hin _ hs => inStep_step hin nofun hs

theorem inStep_of_runWhere (h₀ : s₀.Fresh) (hrun : RunWhere chainLoaderStep withFile s₀ s) :
    InStep true s :=
  hrun.invariant (.of_fresh h₀) fun _ _ _ hin hok hs => inStep_step hin (fun _ => hok) hs

/-! ### The image -/

/-- The size of an image that has been accepted. -/
theorem sentSize_bounds (herror : sizeError (sentSize file) = false) :
    32 ≤ (sentSize file).toNat ∧ (sentSize file).toNat < 2 ^ 30 := by
  have hlt := (sentSize file).isLt
  simp only [sizeError, Bool.or_eq_false_iff, decide_eq_false_iff_not,
    BitVec.toInt_eq_toNat_cond] at herror
  split at herror <;> omega

/-- What `receiver` returns is read from the first 32 bytes. -/
theorem entryPoint_append {loadaddr : BitVec 64} {image rest : List UInt8} (h : 32 ≤ image.length) :
    entryPoint loadaddr (image ++ rest) = entryPoint loadaddr image := by
  have hhead : (image ++ rest).take 4 = image.take 4 := List.take_append_of_le_length (by omega)
  have htail : ((image ++ rest).drop 24).take 8 = (image.drop 24).take 8 := by
    rw [List.drop_append_of_le_length (by omega), List.take_append_of_le_length (by simp; omega)]
  rw [entryPoint, entryPoint, hhead, unsignedLong, htail]
  rfl

/-- The image that is started is the file of the session, cut to the length that four bytes can tell,
    and its entry point does not depend on what lies behind it in the memory. -/
theorem chainLoader_image (h₀ : s₀.Fresh) (hrun : Run chainLoaderStep s₀ s)
    (hreceived : s.board.point = .received) :
    ∃ file, s.host.file = some file ∧ s.board.image = file.take (file.length % 2 ^ 32) ∧
      32 ≤ s.board.image.length ∧ s.board.image.length < 2 ^ 30 ∧
      ∀ loadaddr rest, entryPoint loadaddr (s.board.image ++ rest) =
        entryPoint loadaddr s.board.image := by
  have hin := inStep_of_run h₀ hrun
  cases hin with
  | sending file hasFile left host stores transfer toHost =>
    obtain ⟨herror, ⟨hpoint, -⟩ | ⟨-, hlength⟩⟩ := stores
    · rw [hreceived] at hpoint
      cases hpoint
    · obtain ⟨hmin, hmax⟩ := sentSize_bounds herror
      have himage := transfer.received_eq
      rw [hlength] at himage
      refine ⟨file, hasFile, ?_, ?_, ?_, ?_⟩
      · rw [himage, sentSize, BitVec.toNat_ofNat]
      · rw [hlength]
        exact hmin
      · rw [hlength]
        exact hmax
      · intro loadaddr rest
        exact entryPoint_append (by rw [hlength]; exact hmin)
  | greeting _ _ _ _ _ _ _ owes | greeted _ _ _ _ _ _ owes | refused _ _ _ _ _ _ _ _ owes =>
    obtain ⟨_, hpoint, -⟩ | ⟨hpoint, -⟩ := owes
    · rw [hreceived] at hpoint
      cases hpoint
    · rw [hreceived] at hpoint
      cases hpoint
  | silent _ _ _ _ point | sizing _ _ _ _ _ point | testing _ _ _ point | refusing _ _ _ point
  | accepting _ _ _ point | accepted _ _ _ point =>
    rw [hreceived] at point
    cases point

/-! ### The end of a session -/

/-- A bound on the steps that the receiver takes without a byte to read. -/
def ReceiverPoint.rank : ReceiverPoint → Nat
  | .notify sent => 2 * (3 - sent)
  | .readSize read => 3 * read
  | .testSize => 12
  | .sendE | .sendK => 9
  | .readImage => 1
  | .received => 0

/-- A bound on what a session still writes, each byte counted as the steps that it makes possible. -/
def HostPoint.rank (fileSize : Nat) : HostPoint → Nat
  | .idle | .ended _ | .console => 0
  | .skip | .readTwo => 38 + 10 * fileSize
  | .writeSize written => 9 * (4 - written) + 10 * fileSize + 2
  | .readAnswer => 10 * fileSize + 2
  | .send buffer unread => 9 * buffer.length + 10 * unread.length + 1

/-- A bound on the steps that the bytes on the line make possible. -/
def SerialLine.rank (line : SerialLine) : Nat :=
  line.toHost.length + 8 * line.toBoard.length

/-- A bound on the steps before the host connects again. -/
def ChainLoader.rank (s : ChainLoader) : Nat :=
  s.line.rank + s.board.point.rank + s.host.point.rank (s.host.file.getD []).length

@[simp] theorem SerialLine.rank_uartSend (line : SerialLine) (c : UInt8) :
    (line.uartSend c).rank = line.rank + 1 := by
  simp only [uartSend, rank, List.length_append, List.length_singleton]
  omega

@[simp] theorem SerialLine.rank_writeByte (line : SerialLine) (c : UInt8) :
    (line.writeByte c).rank = line.rank + 8 := by
  simp only [writeByte, rank, List.length_append, List.length_singleton]
  omega

theorem SerialLine.rank_readByte {c : UInt8} {rest : List UInt8} (h : line.toBoard = c :: rest) :
    { line with toBoard := rest }.rank + 8 = line.rank := by
  simp only [rank, h, List.length_cons]
  omega

theorem SerialLine.rank_readBytes {read rest : List UInt8} (h : line.toHost = read ++ rest) :
    { line with toHost := rest }.rank + read.length = line.rank := by
  simp only [rank, h, List.length_append]
  omega

theorem rank_receiverStep (hnotify : ∀ sent, r.point = .notify sent → sent < 3)
    (hs : receiverStep r line = some (r', line')) :
    line'.rank + r'.point.rank < line.rank + r.point.rank := by
  cases hpoint : r.point with
  | notify sent =>
    have hlt := hnotify sent hpoint
    rw [receiverStep, hpoint] at hs
    cases hs
    have hrank : (if sent + 1 = 3 then ReceiverPoint.readSize 0 else .notify (sent + 1)).rank =
        2 * (2 - sent) := by
      split
      case isTrue heq => simp [ReceiverPoint.rank, show sent = 2 by omega]
      case isFalse hne => simp only [ReceiverPoint.rank]; omega
    rw [SerialLine.rank_uartSend, hrank, ReceiverPoint.rank]
    omega
  | readSize read =>
    obtain ⟨c, rest, hline, rfl, hpoint', -⟩ := receiverStep_readSize hpoint hs
    have hread := SerialLine.rank_readByte hline
    have hrank : r'.point.rank ≤ 3 * read + 3 := by
      rw [hpoint']
      split
      case isTrue heq => simp only [ReceiverPoint.rank]; omega
      case isFalse => simp only [ReceiverPoint.rank]; omega
    rw [ReceiverPoint.rank]
    omega
  | testSize =>
    rw [receiverStep, hpoint] at hs
    cases herror : sizeError r.size with
    | true | false =>
      rw [herror] at hs
      cases hs
      rw [SerialLine.rank_uartSend]
      simp only [ReceiverPoint.rank]
      omega
  | sendE | sendK =>
    rw [receiverStep, hpoint] at hs
    cases hs
    rw [SerialLine.rank_uartSend]
    simp only [ReceiverPoint.rank]
    omega
  | readImage =>
    rw [receiverStep, hpoint] at hs
    cases decEq r.size 0 with
    | isTrue hzero =>
      rw [if_pos hzero] at hs
      cases hs
      simp only [ReceiverPoint.rank]
      omega
    | isFalse hpos =>
      rw [if_neg hpos] at hs
      cases hline : line.toBoard with
      | nil =>
        rw [hline] at hs
        cases hs
      | cons c rest =>
        rw [hline] at hs
        cases hs
        have hread := SerialLine.rank_readByte hline
        simp only [ReceiverPoint.rank]
        omega
  | received =>
    rw [receiverStep, hpoint] at hs
    cases hs

theorem rank_hostStep {count : Nat} (hwrite : ∀ written, h.point = .writeSize written → written < 4)
    (hs : hostStep count h line = some (h', line')) :
    line'.rank + h'.point.rank (h'.file.getD []).length <
      line.rank + h.point.rank (h.file.getD []).length := by
  cases hpoint : h.point with
  | idle | ended =>
    rw [hostStep, hpoint] at hs
    cases hs
  | skip =>
    rw [hostStep, hpoint] at hs
    cases hline : line.toHost with
    | nil =>
      rw [hline] at hs
      cases hs
    | cons c rest =>
      rw [hline] at hs
      cases hs
      have hread := SerialLine.rank_readBytes (show line.toHost = [c] ++ rest from hline)
      have hrank : (if c = 3 then HostPoint.readTwo else .skip).rank (h.file.getD []).length =
          38 + 10 * (h.file.getD []).length := by
        split <;> rfl
      simp only [List.length_singleton] at hread
      rw [hrank, HostPoint.rank]
      omega
  | readTwo =>
    obtain ⟨c, d, rest, hline⟩ := hostStep_two (.inl hpoint) hs
    have hread := SerialLine.rank_readBytes hline
    rw [hostStep, hpoint, hline] at hs
    simp only [List.cons_append, List.nil_append] at hs
    simp only [List.length_cons, List.length_nil] at hread
    split at hs
    case isTrue =>
      cases hfile : h.file with
      | none =>
        rw [hfile] at hs
        cases hs
        simp only [HostPoint.rank]
        omega
      | some file =>
        rw [hfile] at hs
        cases hs
        simp only [HostPoint.rank, Option.getD_some]
        omega
    case isFalse =>
      cases hs
      simp only [HostPoint.rank]
      omega
  | writeSize written =>
    have hlt := hwrite written hpoint
    rw [hostStep, hpoint] at hs
    cases hs
    have hrank : (if written + 1 = 4 then HostPoint.readAnswer else .writeSize (written + 1)).rank
        (h.file.getD []).length = 9 * (3 - written) + 10 * (h.file.getD []).length + 2 := by
      split
      case isTrue heq => simp [HostPoint.rank, show written = 3 by omega]
      case isFalse => simp only [HostPoint.rank]; omega
    rw [SerialLine.rank_writeByte, hrank, HostPoint.rank]
    omega
  | readAnswer =>
    obtain ⟨c, d, rest, hline⟩ := hostStep_two (.inr hpoint) hs
    have hread := SerialLine.rank_readBytes hline
    rw [hostStep, hpoint, hline] at hs
    simp only [List.cons_append, List.nil_append] at hs
    cases hs
    have hrank : (if c = 'O'.toUInt8 ∧ d = 'K'.toUInt8 then HostPoint.send [] (h.file.getD [])
        else .ended .sizeError).rank (h.file.getD []).length ≤ 10 * (h.file.getD []).length + 1 := by
      split
      case isTrue => simp [HostPoint.rank]
      case isFalse => simp [HostPoint.rank]
    have hanswer : HostPoint.readAnswer.rank (h.file.getD []).length =
      10 * (h.file.getD []).length + 2 := rfl
    simp only [List.length_cons, List.length_nil] at hread
    rw [hanswer]
    dsimp only
    omega
  | send buffer unread =>
    rw [hostStep, hpoint] at hs
    cases buffer with
    | cons c buffer =>
      cases hs
      rw [SerialLine.rank_writeByte]
      simp only [HostPoint.rank, List.length_cons]
      omega
    | nil =>
      cases unread with
      | nil =>
        cases hs
        simp only [HostPoint.rank, List.length_nil]
        omega
      | cons c unread =>
        simp only [Option.ite_none_right_eq_some] at hs
        cases hs.2
        have hpos := hs.1.1
        simp only [HostPoint.rank, List.length_take, List.length_drop, List.length_cons,
          List.length_nil]
        omega
  | console =>
    rw [hostStep, hpoint] at hs
    cases hline : line.toHost with
    | nil =>
      rw [hline] at hs
      cases hs
    | cons c rest =>
      rw [hline] at hs
      cases hs
      have hread := SerialLine.rank_readBytes (show line.toHost = [c] ++ rest from hline)
      simp only [List.length_singleton] at hread
      rw [hpoint]
      omega

theorem InStep.notify_lt (hin : InStep files s) {sent : Nat} (hpoint : s.board.point = .notify sent) :
    sent < 3 := by
  cases hin with
  | greeting _ _ _ _ _ _ _ owes | greeted _ _ _ _ _ _ owes | refused _ _ _ _ _ _ _ _ owes =>
    obtain ⟨_, hnotify, hsum, hpos⟩ | ⟨hread, -⟩ := owes
    · rw [hpoint] at hnotify
      cases hnotify
      omega
    · rw [hpoint] at hread
      cases hread
  | silent _ _ _ _ point | sizing _ _ _ _ _ point | testing _ _ _ point | refusing _ _ _ point
  | accepting _ _ _ point | accepted _ _ _ point =>
    rw [hpoint] at point
    cases point
  | sending _ _ _ _ stores =>
    obtain ⟨-, ⟨point, -⟩ | ⟨point, -⟩⟩ := stores
    · rw [hpoint] at point
      cases point
    · rw [hpoint] at point
      cases point

theorem InStep.written_lt (hin : InStep files s) {written : Nat}
    (hpoint : s.host.point = .writeSize written) :
    written < 4 := by
  cases hin with
  | greeting waits | silent _ waits =>
    cases waits with
    | idle point | skip point | noFile point | refused point =>
      rw [hpoint] at point
      cases point
  | sizing _ _ _ _ host =>
    obtain ⟨point, -, hlt⟩ | ⟨point, -⟩ := host
    · rw [hpoint] at point
      cases point
      exact hlt
    · rw [hpoint] at point
      cases point
  | sending _ _ _ host =>
    obtain ⟨_, _, point, -⟩ | ⟨point, -⟩ := host
    · rw [hpoint] at point
      cases point
    · rw [hpoint] at point
      cases point
  | greeted point | testing _ _ point | refusing _ _ point | refused _ _ point | accepting _ _ point
  | accepted _ _ point =>
    rw [hpoint] at point
    cases point

/-- Every step but a new connection brings the session nearer to its end. -/
theorem rank_lt {e : LoaderEvent} (hin : InStep files s) (he : ∀ file, e ≠ .connect file)
    (hs : chainLoaderStep s e = some s') : s'.rank < s.rank := by
  cases e with
  | connect file => exact absurd rfl (he file)
  | host count =>
    rw [chainLoaderStep, Option.map_eq_some_iff] at hs
    obtain ⟨⟨h', line'⟩, hstep, rfl⟩ := hs
    have hlt := rank_hostStep (fun _ hpoint => hin.written_lt hpoint) hstep
    simp only [ChainLoader.rank]
    omega
  | board =>
    rw [chainLoaderStep, Option.map_eq_some_iff] at hs
    obtain ⟨⟨r', line'⟩, hstep, rfl⟩ := hs
    have hlt := rank_receiverStep (fun _ hpoint => hin.notify_lt hpoint) hstep
    simp only [ChainLoader.rank]
    omega

theorem length_le_rank {es : List LoaderEvent} (hin : InStep files s)
    (hes : ∀ e ∈ es, ∀ file, e ≠ .connect file)
    (h : replay chainLoaderStep (fun _ _ => true) s es = some s') : es.length ≤ s.rank := by
  induction es generalizing s with
  | nil => exact Nat.zero_le _
  | cons e es ih =>
    have he := hes e List.mem_cons_self
    rw [replay, if_pos rfl] at h
    obtain ⟨s₁, hs₁, h₁⟩ := Option.bind_eq_some_iff.mp h
    have hok : withFile s e = true := by
      cases e with
      | connect file => exact absurd rfl (he file)
      | host | board => rfl
    have hnext := inStep_step hin (fun _ => hok) hs₁
    have hlength := ih hnext (fun e' he' => hes e' (List.mem_cons_of_mem _ he')) h₁
    exact Nat.succ_le_of_lt (hlength.trans_lt (rank_lt hin he hs₁))

/-- How a session can have ended when nothing but a new connection is possible. -/
def Settled (s : ChainLoader) : Prop :=
  s.host.point = .idle ∨ ∃ file, s.host.file = some file ∧
    (s.host.point = .ended .sizeError ∧ sizeError (sentSize file) = true ∨
      s.host.point = .console ∧ s.board.point = .received ∧
        s.board.image = file.take (file.length % 2 ^ 32))

theorem Receiver.Owes.canStep {n : Nat} (howes : r.Owes n) (hn : n ≠ 0) :
    receiverStep r line ≠ none := by
  obtain ⟨sent, hpoint, -, -⟩ | ⟨-, hzero⟩ := howes
  · rw [receiverStep, hpoint]
    nofun
  · exact absurd hzero hn

theorem hostStep_two_ne_none {count : Nat} (point : h.point = .readTwo ∨ h.point = .readAnswer)
    {c d : UInt8} {rest : List UInt8} (hline : line.toHost = c :: d :: rest) :
    hostStep count h line ≠ none := by
  cases point with
  | inl point =>
    rw [hostStep, point, hline]
    simp only
    split
    case isTrue => cases h.file <;> nofun
    case isFalse => nofun
  | inr point =>
    rw [hostStep, point, hline]
    nofun

/-- A receiver that waits although nothing is left to be sent has the image. -/
theorem Receiver.Stores.received (hstores : r.Stores file)
    (htransfer : Transfer file r.image line.toBoard [])
    (hs : receiverStep r line = none) :
    r.point = .received ∧ r.image = file.take (file.length % 2 ^ 32) := by
  obtain ⟨-, ⟨hpoint, hlength⟩ | ⟨hpoint, hlength⟩⟩ := hstores
  · rw [receiverStep, hpoint] at hs
    cases decEq r.size 0 with
    | isTrue hzero =>
      rw [if_pos hzero] at hs
      cases hs
    | isFalse hpos =>
      have hne : r.size.toNat ≠ 0 := fun heq => hpos (BitVec.eq_of_toNat_eq heq)
      have hsent : (sentSize file).toNat ≤ file.length := by
        rw [sentSize, BitVec.toNat_ofNat]
        exact Nat.mod_le _ _
      cases htransfer.pending (by omega) with
      | inl hwire =>
        rw [if_neg hpos] at hs
        cases hline : line.toBoard with
        | nil => exact absurd hline hwire
        | cons c rest =>
          rw [hline] at hs
          cases hs
      | inr hleft => exact absurd rfl hleft
  · refine ⟨hpoint, ?_⟩
    have himage := htransfer.received_eq
    rwa [hlength, sentSize, BitVec.toNat_ofNat] at himage

/-- Where neither side can go on, the session has ended as it should. -/
theorem InStep.settled (hin : InStep true s) (hboard : receiverStep s.board s.line = none)
    (hhost : hostStep 1 s.host s.line = none) : Settled s := by
  cases hin with
  | greeting waits junk k n noThree toHost sum owes toBoard image =>
    cases waits with
    | idle point => exact .inl point
    | noFile _ missing => cases missing
    | refused point file hasFile tooBig => exact .inr ⟨file, hasFile, .inl ⟨point, tooBig⟩⟩
    | skip point =>
      cases hn : n with
      | succ m => exact absurd hboard (owes.canStep (by omega))
      | zero =>
        have hk : k = 3 := by omega
        rw [hostStep, point] at hhost
        cases hline : s.line.toHost with
        | nil =>
          rw [toHost, hk] at hline
          simp at hline
        | cons c rest =>
          rw [hline] at hhost
          cases hhost
  | greeted point hasFile k n toHost sum owes toBoard image =>
    cases hn : n with
    | succ m => exact absurd hboard (owes.canStep (by omega))
    | zero =>
      have hk : k = 2 := by omega
      rw [hk] at toHost
      exact absurd hhost (hostStep_two_ne_none (.inl point) toHost)
  | silent missing => cases missing
  | sizing file hasFile read written host point lt size transfer toHost image =>
    obtain ⟨hpoint, -⟩ | ⟨-, hfour⟩ := host
    · rw [hostStep, hpoint] at hhost
      cases hhost
    · have hlength : ((sizeBytes file.length).take read).length < (sizeBytes file.length).length := by
        simp [sizeBytes, lt]
      cases transfer.pending hlength with
      | inl hwire =>
        rw [receiverStep, point] at hboard
        cases hline : s.line.toBoard with
        | nil => exact absurd hline hwire
        | cons c rest =>
          rw [hline] at hboard
          cases hboard
      | inr hleft => exact absurd (by rw [hfour]; rfl) hleft
  | testing file hasFile host point size toHost toBoard image =>
    rw [receiverStep, point] at hboard
    cases herror : sizeError s.board.size with
    | true | false =>
      rw [herror] at hboard
      cases hboard
  | refusing file hasFile host point | accepting file hasFile host point =>
    rw [receiverStep, point] at hboard
    cases hboard
  | refused file hasFile host error k n toHost =>
    exact absurd hhost (hostStep_two_ne_none (.inr host) toHost)
  | accepted file hasFile host point error size toHost =>
    exact absurd hhost (hostStep_two_ne_none (.inr host) toHost)
  | sending file hasFile left host stores transfer toHost =>
    obtain ⟨buffer, unread, hpoint, -⟩ | ⟨hpoint, rfl⟩ := host
    · rw [hostStep, hpoint] at hhost
      match buffer, unread, hhost with
      | [], [], hhost | [], _ :: _, hhost | _ :: _, _, hhost => cases hhost
    · exact .inr ⟨file, hasFile, .inr ⟨hpoint, stores.received transfer hboard⟩⟩

/-- A session with a file that exists takes a bounded number of steps. When neither side can go on,
    the host has not connected yet, or the receiver has refused the size, or it has the image. -/
theorem chainLoader_ends (h₀ : s₀.Fresh) (hrun : RunWhere chainLoaderStep withFile s₀ s) :
    (∀ es s', (∀ e ∈ es, ∀ file, e ≠ .connect file) →
        replay chainLoaderStep (fun _ _ => true) s es = some s' → es.length ≤ s.rank) ∧
      ((∀ e, (∀ file, e ≠ .connect file) → chainLoaderStep s e = none) → Settled s) := by
  have hin := inStep_of_runWhere h₀ hrun
  constructor
  · intro es s' hes hreplay
    exact length_le_rank hin hes hreplay
  · intro hstuck
    have hboard := hstuck .board nofun
    have hhost := hstuck (.host 1) nofun
    simp only [chainLoaderStep, Option.map_eq_none_iff] at hboard hhost
    exact hin.settled hboard hhost

/-! ### A session -/

/-- The firmware has sent a line before the receiver starts. -/
def freshChainLoader : ChainLoader where
  board := ⟨.notify 0, 0, []⟩
  host := ⟨.idle, none, 0⟩
  line := ⟨[0x0a], []⟩

theorem fresh_freshChainLoader : freshChainLoader.Fresh :=
  ⟨rfl, rfl, rfl, rfl, by decide⟩

/-- A file of 33 bytes. -/
def smallFile : List UInt8 := (List.range 33).map UInt8.ofNat

/-- A file that is too short, then one that is not. -/
def twoSessions : List LoaderEvent :=
  List.replicate 3 .board ++ .connect (some [1]) :: List.replicate 7 (.host 1) ++
    List.replicate 9 .board ++ .host 1 :: .connect (some smallFile) :: List.replicate 6 (.host 1) ++
    List.replicate 6 .board ++ List.replicate 36 (.host 1000) ++ List.replicate 34 .board

theorem chainLoader_image_twoSessions : ∃ s : ChainLoader, s.board.point = .received ∧
    ∃ file, s.host.file = some file ∧ s.board.image = file.take (file.length % 2 ^ 32) := by
  obtain ⟨s, hrun, hs⟩ : ∃ s, Run chainLoaderStep freshChainLoader s ∧
    (s.board.point == .received) = true :=
    RunWhere.exists_of_replay twoSessions (by decide)
  have hreceived : s.board.point = .received := by simpa using hs
  obtain ⟨file, hfile, himage, -⟩ := chainLoader_image fresh_freshChainLoader hrun hreceived
  exact ⟨s, hreceived, file, hfile, himage⟩

theorem chainLoader_ends_twoSessions : ∃ s : ChainLoader, s.board.point = .received ∧ Settled s := by
  obtain ⟨s, hrun, hs⟩ : ∃ s, RunWhere chainLoaderStep withFile freshChainLoader s ∧
      (s.board.point == .received && s.host.point == .console && s.line.toHost == []) = true :=
    RunWhere.exists_of_replay twoSessions (by decide)
  simp only [Bool.and_eq_true, beq_iff_eq] at hs
  refine ⟨s, hs.1.1, (chainLoader_ends fresh_freshChainLoader hrun).2 ?_⟩
  intro e he
  cases e with
  | connect file => exact absurd rfl (he file)
  | host count => simp [chainLoaderStep, hostStep, hs.1.2, hs.2]
  | board => simp [chainLoaderStep, receiverStep, hs.1.1]

end Rpi4Kernel.Tools
