/-
Module: Rpi4Kernel.Tools.ChainLoader
Layer: Tools
Purpose: The chain loader: `receiver` of `tools/chainloader/imagercv/imgrecv.c` on the board and
  `connectAndSend` of `tools/chainloader/LagorBoot/src/Main.java` on the host, with the serial line
  between them. The host may connect again when a session has ended.
Trusted boundary: the line neither loses nor changes bytes. A file does not change while it is sent,
  and its length fits a `long`. `char` is unsigned on the board. The image does not overwrite the
  loader. What the image does once it is started is left out, as is the set-up of the UART.
Main exports: ReceiverPoint, Receiver, HostPoint, Host, ChainLoader, LoaderEvent, receiverStep,
  hostStep, chainLoaderStep, entryPoint, ChainLoader.Fresh
-/
import Mathlib.Data.BitVec
import Mathlib.Data.List.Basic

namespace Rpi4Kernel.Tools

/-! ### The receiver -/

/-- Where `receiver` is. -/
inductive ReceiverPoint where
  /-- Before `uart_send(3)`, which has been called `sent` times. -/
  | notify (sent : Nat)
  /-- Before a `uart_getc()` of the size; `read` bytes of it have been read. -/
  | readSize (read : Nat)
  /-- Before the test of the size. -/
  | testSize
  /-- Before `uart_send('E')`. -/
  | sendE
  /-- Before `uart_send('K')`. -/
  | sendK
  /-- At the head of the loop that reads the image. -/
  | readImage
  /-- After the loop. -/
  | received
deriving DecidableEq, Repr

/-- `receiver` with its `size`, and what it has stored from `loadaddr` on. -/
structure Receiver where
  point : ReceiverPoint
  size : BitVec 32
  image : List UInt8
deriving DecidableEq, Repr

/-- The bytes on the line in both directions. -/
structure SerialLine where
  toHost : List UInt8
  toBoard : List UInt8
deriving DecidableEq, Repr

/-- `uart_send`. -/
def SerialLine.uartSend (line : SerialLine) (c : UInt8) : SerialLine :=
  { line with toHost := line.toHost ++ [c] }

/-- `serialPort.writeByte`. -/
def SerialLine.writeByte (line : SerialLine) (c : UInt8) : SerialLine :=
  { line with toBoard := line.toBoard ++ [c] }

/-- `size < 32 || size >= 1024*1024*1024`, for an `int`. -/
def sizeError (size : BitVec 32) : Bool :=
  size.toInt < 32 || size.toInt ≥ 1024 * 1024 * 1024

/-- `size |= uart_getc() << shift`, where the first byte is assigned. -/
def addSizeByte (size : BitVec 32) (read : Nat) (c : UInt8) : BitVec 32 :=
  if read = 0 then c.toBitVec.setWidth 32 else size ||| c.toBitVec.setWidth 32 <<< (8 * read)

/-- A step of `receiver`. It waits in `uart_getc` while there is nothing on the line. -/
def receiverStep (r : Receiver) (line : SerialLine) : Option (Receiver × SerialLine) :=
  match r.point with
  | .notify sent =>
    some ({ r with point := if sent + 1 = 3 then .readSize 0 else .notify (sent + 1) }, line.uartSend 3)
  | .readSize read =>
    match line.toBoard with
    | [] => none
    | c :: rest =>
      some ({ r with
        point := if read + 1 = 4 then .testSize else .readSize (read + 1)
        size := addSizeByte r.size read c }, { line with toBoard := rest })
  | .testSize =>
    if sizeError r.size then some ({ r with point := .sendE }, line.uartSend 'S'.toUInt8)
    else some ({ r with point := .sendK }, line.uartSend 'O'.toUInt8)
  | .sendE => some ({ r with point := .notify 0 }, line.uartSend 'E'.toUInt8)
  | .sendK => some ({ r with point := .readImage }, line.uartSend 'K'.toUInt8)
  | .readImage =>
    -- `while(size--)`
    if r.size = 0 then some ({ r with point := .received, size := r.size - 1 }, line)
    else
      match line.toBoard with
      | [] => none
      | c :: rest =>
        some ({ r with size := r.size - 1, image := r.image ++ [c] }, { line with toBoard := rest })
  | .received => none

/-- `*((unsigned long*)p)`, for the bytes from `p` on. -/
def unsignedLong (bytes : List UInt8) : BitVec 64 :=
  ((bytes.take 8).map UInt8.toBitVec).foldr (fun c v => v <<< 8 ||| c.setWidth 64) 0

/-- What `receiver` returns when the memory holds `memory` from `loadaddr` on. -/
def entryPoint (loadaddr : BitVec 64) (memory : List UInt8) : BitVec 64 :=
  if memory.take 4 = [0x7f, 'E'.toUInt8, 'L'.toUInt8, 'F'.toUInt8] then unsignedLong (memory.drop 24)
  else loadaddr

/-! ### The host -/

/-- How a session of `connectAndSend` has ended. -/
inductive SessionEnd where
  /-- `File ... does not exist, or is a folder!` -/
  | noFile
  /-- `File size error from server` -/
  | sizeError
  /-- `Got wrong bytes from Raspbootin64` -/
  | wrongBytes
deriving DecidableEq, Repr

/-- Where `connectAndSend` is. -/
inductive HostPoint where
  /-- It has not been called yet. -/
  | idle
  /-- In the loop that skips to the first 3. -/
  | skip
  /-- Before two more bytes are read. -/
  | readTwo
  /-- Before a `writeByte` of the size; `written` bytes of it have been written. -/
  | writeSize (written : Nat)
  /-- Before the answer of the receiver is read. -/
  | readAnswer
  /-- In the loops that send the file: `buffer` is left of the bytes read last, `unread` of the file. -/
  | send (buffer unread : List UInt8)
  /-- In the loop that prints what comes. -/
  | console
  | ended (outcome : SessionEnd)
deriving DecidableEq, Repr

/-- `connectAndSend` with its file, if there is one of the given name, and its `size`. -/
structure Host where
  point : HostPoint
  file : Option (List UInt8)
  size : Nat
deriving DecidableEq, Repr

/-- `(byte) (size & 255)`. -/
def lowByte (size : Nat) : UInt8 := UInt8.ofNat (size &&& 255)

/-- A step of `connectAndSend`. It waits while what it reads is not on the line. `count` is the number
    of bytes that `in.read` returns, between 1 and 1024 and no more than there are. -/
def hostStep (count : Nat) (host : Host) (line : SerialLine) : Option (Host × SerialLine) :=
  match host.point with
  | .idle | .ended _ => none
  | .skip =>
    match line.toHost with
    | [] => none
    | c :: rest =>
      some ({ host with point := if c = 3 then .readTwo else .skip }, { line with toHost := rest })
  | .readTwo =>
    match line.toHost with
    | c :: d :: rest =>
      let line := { line with toHost := rest }
      if c = 3 ∧ d = 3 then
        match host.file with
        | some file => some ({ host with point := .writeSize 0, size := file.length }, line)
        | none => some ({ host with point := .ended .noFile }, line)
      else some ({ host with point := .ended .wrongBytes }, line)
    | _ => none
  | .writeSize written =>
    -- `size` is shifted between two writes
    some ({ host with
      point := if written + 1 = 4 then .readAnswer else .writeSize (written + 1)
      size := if written + 1 = 4 then host.size else host.size >>> 8 }, line.writeByte
        (lowByte host.size))
  | .readAnswer =>
    match line.toHost with
    | c :: d :: rest =>
      some ({ host with
        point := if c = 'O'.toUInt8 ∧ d = 'K'.toUInt8 then .send [] (host.file.getD [])
          else .ended .sizeError },
        { line with toHost := rest })
    | _ => none
  | .send [] [] => some ({ host with point := .console }, line)
  | .send [] (c :: unread) =>
    if 0 < count ∧ count ≤ 1024 then
      some ({ host with point := .send ((c :: unread).take count) ((c :: unread).drop count) }, line)
    else none
  | .send (c :: buffer) unread => some ({ host with point := .send buffer unread }, line.writeByte c)
  | .console =>
    match line.toHost with
    | [] => none
    | _ :: rest => some (host, { line with toHost := rest })

/-! ### Both -/

/-- The board, the host and the line between them. -/
structure ChainLoader where
  board : Receiver
  host : Host
  line : SerialLine
deriving DecidableEq, Repr

/-- What can happen next. -/
inductive LoaderEvent where
  /-- `connectAndSend` is called with the name of a file, or of none. -/
  | connect (file : Option (List UInt8))
  | host (count : Nat)
  | board
deriving DecidableEq, Repr

/-- No call of `connectAndSend` goes on. -/
def HostPoint.resting : HostPoint → Bool
  | .idle | .ended _ => true
  | _ => false

/-- A step of the board or of the host. -/
def chainLoaderStep (s : ChainLoader) : LoaderEvent → Option ChainLoader
  | .connect file =>
    if s.host.point.resting then some { s with host := { point := .skip, file := file, size := 0 } }
    else none
  | .host count => (hostStep count s.host s.line).map fun (host, line) =>
    { s with host := host, line := line }
  | .board => (receiverStep s.board s.line).map fun (board, line) =>
    { s with board := board, line := line }

/-- The receiver starts; what the firmware has sent before has no 3. -/
structure ChainLoader.Fresh (s : ChainLoader) : Prop where
  point : s.board.point = .notify 0
  image : s.board.image = []
  host : s.host.point = .idle
  toBoard : s.line.toBoard = []
  toHost : 3 ∉ s.line.toHost

end Rpi4Kernel.Tools
