import OkeOS.ConsoleCore
import OkeOS.PortIo

/-!
`lib/serial.cpp` over any device, and on a UART that sends and receives at its own pace.  The
driver waits for an empty transmitter before every byte, so no pace of the UART makes it lose
or reorder one.
-/

namespace OkeOS

open Fuel PortIo

/-- COM1. -/
def PORT : UInt16 := 0x3f8

section

variable {δ : Type} (bus : Device δ)

def serialInit (port : δ) : Nat × δ :=
  let port := bus.outb port (PORT + 1) 0x00
  let port := bus.outb port (PORT + 3) 0x80
  let port := bus.outb port (PORT + 0) 0x03
  let port := bus.outb port (PORT + 1) 0x00
  let port := bus.outb port (PORT + 3) 0x03
  let port := bus.outb port (PORT + 2) 0xC7
  let port := bus.outb port (PORT + 4) 0x0B
  let port := bus.outb port (PORT + 4) 0x1E
  let port := bus.outb port (PORT + 0) 0xAE
  let (value, port) := bus.inb port (PORT + 0)
  if value ≠ 0xAE then (1, port)
  else (0, bus.outb port (PORT + 4) 0x0F)

def serialReceived (port : δ) : UInt8 × δ :=
  let (status, port) := bus.inb port (PORT + 5)
  (status &&& 1, port)

def isTransmitEmpty (port : δ) : UInt8 × δ :=
  let (status, port) := bus.inb port (PORT + 5)
  (status &&& 0x20, port)

/-- The condition on which the loop over `check` ends. -/
def nonzero (check : δ → UInt8 × δ) (port : δ) : Bool × δ :=
  let (status, port) := check port
  (status ≠ 0, port)

def serialRead (fuel : Nat) (port : δ) : Except Fault (UInt8 × δ) := do
  let port ← await .outOfFuel (nonzero (serialReceived bus)) fuel port
  .ok (bus.inb port PORT)

def serialWrite (fuel : Nat) (a : UInt8) (port : δ) : Except Fault δ := do
  let port ← await .outOfFuel (nonzero (isTransmitEmpty bus)) fuel port
  .ok (bus.outb port PORT a)

def serialWritemany (fuel : Nat) (a : CString) (port : δ) : Except Fault δ :=
  a.chars.foldlM (fun port a => serialWrite bus fuel a port) port

end

/-! The device. -/

/-- A UART.  `sending` and `received` are its queues, `line` is what has left it, `taken` is
what has ever been put into `received`, and `lost` is what was written to a full queue. -/
structure Uart where
  ier : UInt8
  lcr : UInt8
  mcr : UInt8
  fcr : UInt8
  dll : UInt8
  dlm : UInt8
  sending : List UInt8
  received : List UInt8
  line : List UInt8
  taken : List UInt8
  lost : List UInt8

namespace Uart

/-- The divisor latch takes the place of the data. -/
def dlab (uart : Uart) : Bool := uart.lcr &&& 0x80 ≠ 0

/-- What is sent goes to the own receiver, and nothing comes in. -/
def loopback (uart : Uart) : Bool := uart.mcr &&& 0x10 ≠ 0

/-- How many bytes a queue holds. -/
def room (uart : Uart) : Nat := if uart.fcr &&& 1 ≠ 0 then 16 else 1

def receive (uart : Uart) (byte : UInt8) : Uart :=
  if uart.received.length < uart.room then
    { uart with received := uart.received ++ [byte], taken := uart.taken ++ [byte] }
  else uart

/-- One byte leaves the transmitter. -/
def shift (uart : Uart) : Uart :=
  match uart.sending with
  | [] => uart
  | byte :: rest =>
      if uart.loopback then { uart with sending := rest }.receive byte
      else { uart with sending := rest, line := uart.line ++ [byte] }

def shifts (uart : Uart) : Nat → Uart
  | 0 => uart
  | count + 1 => uart.shift.shifts count

/-- The bytes that come in. -/
def arrive (uart : Uart) (bytes : List UInt8) : Uart :=
  if uart.loopback then uart else bytes.foldl receive uart

/-- A write to `FCR` clears the queues that it names, and both when it turns them on or off. -/
def control (uart : Uart) (value : UInt8) : Uart :=
  let switched : Bool := uart.fcr &&& 1 ≠ value &&& 1
  { uart with
    fcr := value
    received := if switched ∨ value &&& 2 ≠ 0 then [] else uart.received
    sending := if switched ∨ value &&& 4 ≠ 0 then [] else uart.sending }

def write (uart : Uart) (offset : UInt16) (value : UInt8) : Uart :=
  if offset = 0 then
    if uart.dlab then { uart with dll := value }
    else if uart.sending.length < uart.room then { uart with sending := uart.sending ++ [value] }
    else { uart with lost := uart.lost ++ [value] }
  else if offset = 1 then
    if uart.dlab then { uart with dlm := value } else { uart with ier := value }
  else if offset = 2 then uart.control value
  else if offset = 3 then { uart with lcr := value }
  else if offset = 4 then { uart with mcr := value }
  else uart

/-- The line status. -/
def status (uart : Uart) : UInt8 :=
  (if uart.received = [] then 0 else 1) ||| (if uart.sending = [] then 0x60 else 0)

/-- `idle` is what an empty receiver reads as. -/
def read (idle : UInt8) (uart : Uart) (offset : UInt16) : UInt8 × Uart :=
  if offset = 0 then
    if uart.dlab then (uart.dll, uart)
    else match uart.received with
      | [] => (idle, uart)
      | byte :: rest => (byte, { uart with received := rest })
  else if offset = 1 then (if uart.dlab then uart.dlm else uart.ier, uart)
  else if offset = 3 then (uart.lcr, uart)
  else if offset = 4 then (uart.mcr, uart)
  else if offset = 5 then (uart.status, uart)
  else (0, uart)

end Uart

/-- What happens on the other side before each access: how many bytes leave, which come in, and
what an empty receiver reads as. -/
structure Wire where
  leave : Nat → Nat
  come : Nat → List UInt8
  idle : UInt8

/-- The UART at COM1, with the other side of its line. -/
def uartBus (wire : Wire) : Device (Clocked Uart) :=
  Device.clocked
    { outb := fun uart port value => uart.write (port - PORT) value
      inb := fun uart port => uart.read wire.idle (port - PORT) }
    fun now uart => (uart.shifts (wire.leave now)).arrive (wire.come now)

/-! What passes through the UART. -/

/-- In normal operation: `out` has been queued for the line, `inn` has been read, and no
register has changed. -/
structure Passed (out inn : List UInt8) (before after : Uart) : Prop where
  lcr : after.lcr = before.lcr
  mcr : after.mcr = before.mcr
  fcr : after.fcr = before.fcr
  sent : after.line ++ after.sending = before.line ++ before.sending ++ out
  lost : after.lost = before.lost
  came : ∃ new, inn ++ after.received = before.received ++ new ∧ after.taken = before.taken ++ new

namespace Uart

/-- The data register is the data register, and the line is the line. -/
structure Ready (uart : Uart) : Prop where
  dlab : uart.dlab = false
  loopback : uart.loopback = false

end Uart

section

variable {uart before between after : Uart} {out out' inn inn' : List UInt8}

theorem Passed.refl (uart : Uart) : Passed [] [] uart uart :=
  ⟨rfl, rfl, rfl, by simp, rfl, [], by simp, by simp⟩

theorem Passed.trans (first : Passed out inn before between) (second : Passed out' inn' between after) :
    Passed (out ++ out') (inn ++ inn') before after where
  lcr := second.lcr.trans first.lcr
  mcr := second.mcr.trans first.mcr
  fcr := second.fcr.trans first.fcr
  sent := by rw [second.sent, first.sent, List.append_assoc]
  lost := second.lost.trans first.lost
  came := by
    obtain ⟨new, received, taken⟩ := first.came
    obtain ⟨new', received', taken'⟩ := second.came
    refine ⟨new ++ new', ?_, ?_⟩
    · rw [List.append_assoc, received', ← List.append_assoc, received, List.append_assoc]
    · rw [taken', taken, List.append_assoc]

theorem Passed.onLine (passed : Passed out inn before after) (onLine : before.loopback = false) :
    after.loopback = false := by
  rw [Uart.loopback, passed.mcr]
  exact onLine

theorem Passed.ready (passed : Passed out inn before after) (ready : before.Ready) :
    after.Ready := by
  constructor
  · rw [Uart.dlab, passed.lcr]
    exact ready.dlab
  · exact passed.onLine ready.loopback

theorem receive_passed (uart : Uart) (byte : UInt8) : Passed [] [] uart (uart.receive byte) := by
  rw [Uart.receive]
  split
  · exact ⟨rfl, rfl, rfl, by simp, rfl, [byte], rfl, rfl⟩
  · exact Passed.refl uart

theorem shift_passed (onLine : uart.loopback = false) : Passed [] [] uart uart.shift := by
  rw [Uart.shift]
  split
  · exact Passed.refl uart
  · rename_i byte rest sending
    rw [onLine, if_neg (by decide)]
    refine ⟨rfl, rfl, rfl, ?_, rfl, [], by simp, by simp⟩
    simp [sending]

theorem shifts_passed (onLine : uart.loopback = false) (count : Nat) :
    Passed [] [] uart (uart.shifts count) := by
  induction count generalizing uart with
  | zero => exact Passed.refl uart
  | succ count ih =>
      have first := shift_passed onLine
      exact first.trans (ih (first.onLine onLine))

theorem receives_passed (uart : Uart) (bytes : List UInt8) :
    Passed [] [] uart (bytes.foldl Uart.receive uart) := by
  induction bytes generalizing uart with
  | nil => exact Passed.refl uart
  | cons byte rest ih => exact (receive_passed uart byte).trans (ih _)

theorem arrive_passed (uart : Uart) (bytes : List UInt8) : Passed [] [] uart (uart.arrive bytes) := by
  rw [Uart.arrive]
  split
  · exact Passed.refl uart
  · exact receives_passed uart bytes

end

/-! One access. -/

/-- The UART at the next access. -/
def settled (wire : Wire) (port : Clocked Uart) : Uart :=
  (port.state.shifts (wire.leave port.now)).arrive (wire.come port.now)

section

variable {wire : Wire} {port port' : Clocked Uart} {fuel : Nat}

/-- Nothing gets lost while the UART goes on by itself. -/
theorem settled_passed (wire : Wire) (onLine : port.state.loopback = false) :
    Passed [] [] port.state (settled wire port) :=
  (shifts_passed onLine _).trans (arrive_passed _ _)

theorem receive_sending (uart : Uart) (byte : UInt8) : (uart.receive byte).sending = uart.sending := by
  rw [Uart.receive]
  split
  · rfl
  · rfl

theorem receives_sending (uart : Uart) (bytes : List UInt8) :
    (bytes.foldl Uart.receive uart).sending = uart.sending := by
  induction bytes generalizing uart with
  | nil => rfl
  | cons byte rest ih => rw [List.foldl_cons, ih, receive_sending]

theorem arrive_sending (uart : Uart) (bytes : List UInt8) :
    (uart.arrive bytes).sending = uart.sending := by
  rw [Uart.arrive]
  split
  · rfl
  · exact receives_sending uart bytes

theorem shifts_empty {uart : Uart} (empty : uart.sending = []) (count : Nat) :
    uart.shifts count = uart := by
  induction count with
  | zero => rfl
  | succ count ih =>
      have same : uart.shift = uart := by rw [Uart.shift, empty]
      rw [Uart.shifts, same, ih]

/-- An empty transmitter stays empty. -/
theorem settled_empty (empty : port.state.sending = []) : (settled wire port).sending = [] := by
  rw [settled, arrive_sending, shifts_empty empty]
  exact empty

theorem status_empty (uart : Uart) : uart.status &&& 0x20 ≠ 0 ↔ uart.sending = [] := by
  rw [Uart.status]
  by_cases received : uart.received = [] <;> by_cases sending : uart.sending = [] <;>
    simp [received, sending] <;> decide

theorem status_received (uart : Uart) : uart.status &&& 1 ≠ 0 ↔ uart.received ≠ [] := by
  rw [Uart.status]
  by_cases received : uart.received = [] <;> by_cases sending : uart.sending = [] <;>
    simp [received, sending] <;> decide

theorem bus_outb (port : Clocked Uart) (offset : UInt16) (value : UInt8) :
    (uartBus wire).outb port (PORT + offset) value =
      ⟨(settled wire port).write offset value, port.now + 1⟩ := by
  have same : PORT + offset - PORT = offset := by
    rw [UInt16.add_comm, UInt16.add_sub_cancel]
  simp only [uartBus, Device.clocked, same, settled]

theorem bus_inb (port : Clocked Uart) (offset : UInt16) :
    (uartBus wire).inb port (PORT + offset) =
      (((settled wire port).read wire.idle offset).1,
        ⟨((settled wire port).read wire.idle offset).2, port.now + 1⟩) := by
  have same : PORT + offset - PORT = offset := by
    rw [UInt16.add_comm, UInt16.add_sub_cancel]
  simp only [uartBus, Device.clocked, same, settled]

/-- What a look at the line status comes to. -/
theorem bus_status (port : Clocked Uart) :
    (uartBus wire).inb port (PORT + 5) =
      ((settled wire port).status, ⟨settled wire port, port.now + 1⟩) :=
  bus_inb port 5

theorem empty_check (port : Clocked Uart) :
    nonzero (isTransmitEmpty (uartBus wire)) port =
      (decide ((settled wire port).sending = []), ⟨settled wire port, port.now + 1⟩) := by
  simp only [nonzero, isTransmitEmpty, bus_status, status_empty]

theorem received_check (port : Clocked Uart) :
    nonzero (serialReceived (uartBus wire)) port =
      (decide ((settled wire port).received ≠ []), ⟨settled wire port, port.now + 1⟩) := by
  simp only [nonzero, serialReceived, bus_status, status_received]

/-! One call. -/

/-- A loop over the line status loses nothing, and ends when the status is as wanted. -/
theorem await_passed {check : Clocked Uart → Bool × Clocked Uart} (Wanted : Uart → Prop)
    [DecidablePred Wanted]
    (answers : ∀ port, check port =
      (decide (Wanted (settled wire port)), ⟨settled wire port, port.now + 1⟩))
    (ready : port.state.Ready) (run : await .outOfFuel check fuel port = (.ok port' : Except Fault _)) :
    Passed [] [] port.state port'.state ∧ Wanted port'.state := by
  obtain ⟨last, before, wanted, rfl⟩ := await_last
    (fun now => Passed [] [] port.state now.state)
    (fun now passed => by
      rw [answers]
      exact passed.trans (settled_passed wire (passed.onLine ready.loopback)))
    (Passed.refl _) run
  rw [answers] at wanted ⊢
  rw [decide_eq_true_eq] at wanted
  exact ⟨before.trans (settled_passed wire (before.onLine ready.loopback)), wanted⟩

theorem write_passed {uart : Uart} (ready : uart.Ready) (empty : uart.sending = []) (a : UInt8) :
    Passed [a] [] uart (uart.write 0 a) := by
  have fits : uart.sending.length < uart.room := by
    rw [empty, Uart.room]
    split
    · decide
    · decide
  rw [Uart.write, if_pos rfl, ready.dlab, if_neg (by decide), if_pos fits]
  exact ⟨rfl, rfl, rfl, by simp, rfl, [], by simp, by simp⟩

theorem read_passed {uart : Uart} (ready : uart.Ready) (full : uart.received ≠ []) (idle : UInt8) :
    Passed [] [(uart.read idle 0).1] uart (uart.read idle 0).2 := by
  rw [Uart.read, if_pos rfl, ready.dlab, if_neg (by decide)]
  cases received : uart.received with
  | nil => exact absurd received full
  | cons byte rest => exact ⟨rfl, rfl, rfl, by simp, rfl, [], by simp [received], by simp⟩

theorem serialWrite_passed {a : UInt8} (ready : port.state.Ready)
    (run : serialWrite (uartBus wire) fuel a port = .ok port') :
    Passed [a] [] port.state port'.state := by
  obtain ⟨between, polled, result⟩ := Fault.peel run
  obtain ⟨passed, empty⟩ := await_passed (fun uart => uart.sending = []) empty_check ready polled
  have settling := settled_passed wire (passed.onLine ready.loopback)
  have wrote := write_passed (settling.ready (passed.ready ready)) (settled_empty empty) a
  rw [Except.ok.injEq, ← UInt16.add_zero PORT, bus_outb] at result
  rw [← result]
  exact (passed.trans settling).trans wrote

/-- A receiver that has a byte keeps it. -/
theorem settled_received (wire : Wire) (ready : port.state.Ready)
    (full : port.state.received ≠ []) : (settled wire port).received ≠ [] := by
  obtain ⟨new, received, _⟩ := (@settled_passed port wire ready.loopback).came
  rw [List.nil_append] at received
  rw [received]
  simp [full]

theorem serialRead_passed {c : UInt8} (ready : port.state.Ready)
    (run : serialRead (uartBus wire) fuel port = .ok (c, port')) :
    Passed [] [c] port.state port'.state := by
  obtain ⟨between, polled, result⟩ := Fault.peel run
  obtain ⟨passed, full⟩ := await_passed (fun uart => uart.received ≠ []) received_check ready polled
  have ready' := passed.ready ready
  have settling := @settled_passed between wire ready'.loopback
  have took := read_passed (settling.ready ready') (settled_received wire ready' full) wire.idle
  rw [Except.ok.injEq, ← UInt16.add_zero PORT, bus_inb, Prod.mk.injEq] at result
  rw [← result.1, ← result.2]
  exact (passed.trans settling).trans took

theorem serialWrites_passed {chars : List UInt8} (ready : port.state.Ready)
    (run : chars.foldlM (fun port a => serialWrite (uartBus wire) fuel a port) port = .ok port') :
    Passed chars [] port.state port'.state := by
  induction chars generalizing port with
  | nil =>
      obtain rfl : port = port' := Except.ok.inj run
      exact Passed.refl _
  | cons a rest ih =>
      rw [List.foldlM_cons] at run
      obtain ⟨between, wrote, run⟩ := Fault.peel run
      have first := serialWrite_passed ready wrote
      exact first.trans (ih (first.ready ready) run)

end

/-! Any sequence of calls. -/

inductive SerialCall where
  | write (a : UInt8)
  | writemany (a : CString)
  | read

def SerialCall.written : SerialCall → List UInt8
  | .write a => [a]
  | .writemany a => a.chars
  | .read => []

section

variable {δ : Type} (bus : Device δ) (fuel : Nat)

/-- A call, with the byte that it reads. -/
def SerialCall.run (call : SerialCall) (port : δ) : Except Fault (List UInt8 × δ) :=
  match call with
  | .write a => do
      let port ← serialWrite bus fuel a port
      .ok ([], port)
  | .writemany a => do
      let port ← serialWritemany bus fuel a port
      .ok ([], port)
  | .read => do
      let (c, port) ← serialRead bus fuel port
      .ok ([c], port)

def runCalls : List SerialCall → δ → Except Fault (List UInt8 × δ)
  | [], port => .ok ([], port)
  | call :: rest, port => do
      let (first, port) ← call.run bus fuel port
      let (later, port) ← runCalls rest port
      .ok (first ++ later, port)

end

section

variable {wire : Wire} {port port' : Clocked Uart} {fuel : Nat}

theorem call_passed {call : SerialCall} {bytes : List UInt8} (ready : port.state.Ready)
    (run : call.run (uartBus wire) fuel port = .ok (bytes, port')) :
    Passed call.written bytes port.state port'.state := by
  cases call with
  | write a =>
      obtain ⟨after, wrote, result⟩ := Fault.peel run
      rw [Except.ok.injEq, Prod.mk.injEq] at result
      obtain ⟨rfl, rfl⟩ := result
      exact serialWrite_passed ready wrote
  | writemany a =>
      obtain ⟨after, wrote, result⟩ := Fault.peel run
      rw [Except.ok.injEq, Prod.mk.injEq] at result
      obtain ⟨rfl, rfl⟩ := result
      exact serialWrites_passed ready wrote
  | read =>
      obtain ⟨⟨c, after⟩, took, result⟩ := Fault.peel run
      rw [Except.ok.injEq, Prod.mk.injEq] at result
      obtain ⟨rfl, rfl⟩ := result
      exact serialRead_passed ready took

theorem runCalls_passed {calls : List SerialCall} {bytes : List UInt8} (ready : port.state.Ready)
    (run : runCalls (uartBus wire) fuel calls port = .ok (bytes, port')) :
    Passed (calls.flatMap SerialCall.written) bytes port.state port'.state := by
  induction calls generalizing port bytes with
  | nil =>
      rw [runCalls, Except.ok.injEq, Prod.mk.injEq] at run
      obtain ⟨rfl, rfl⟩ := run
      exact Passed.refl _
  | cons call rest ih =>
      obtain ⟨⟨first, between⟩, called, run⟩ := Fault.peel run
      obtain ⟨⟨later, after⟩, others, result⟩ := Fault.peel run
      simp only [Except.ok.injEq, Prod.mk.injEq] at result
      obtain ⟨rfl, rfl⟩ := result
      have passed := call_passed ready called
      rw [List.flatMap_cons]
      exact passed.trans (ih (passed.ready ready) others)

end

/-! Whether the calls return. -/

/-- The bytes that the line can take during `count` accesses. -/
def Wire.takes (wire : Wire) (now : Nat) : Nat → Nat
  | 0 => 0
  | count + 1 => wire.takes now count + wire.leave (now + count)

/-- The transmitter goes on: again and again a byte leaves. -/
def Wire.Fair (wire : Wire) : Prop := ∀ now, ∃ later, now ≤ later ∧ 0 < wire.leave later

theorem Wire.takes_add (wire : Wire) (now first second : Nat) :
    wire.takes now (first + second) = wire.takes now first + wire.takes (now + first) second := by
  induction second with
  | zero => rfl
  | succ second ih => rw [← Nat.add_assoc, takes, takes, ih, Nat.add_assoc, Nat.add_assoc]

theorem Wire.Fair.takes {wire : Wire} (fair : wire.Fair) (now wanted : Nat) :
    ∃ count, wanted ≤ wire.takes now count := by
  induction wanted with
  | zero => exact ⟨0, Nat.zero_le _⟩
  | succ wanted ih =>
      obtain ⟨count, enough⟩ := ih
      obtain ⟨later, after, leaves⟩ := fair (now + count)
      obtain ⟨more, rfl⟩ : ∃ more, later = now + count + more := ⟨later - (now + count), by omega⟩
      refine ⟨count + (more + 1), ?_⟩
      rw [takes_add, Wire.takes]
      omega

section

variable {wire : Wire} {port : Clocked Uart}

theorem shift_sending (uart : Uart) : uart.shift.sending = uart.sending.tail := by
  rw [Uart.shift]
  split
  · rename_i empty
    rw [empty]
    rfl
  · rename_i byte rest sending
    rw [sending]
    split
    · rw [receive_sending]
      rfl
    · rfl

theorem shifts_sending (uart : Uart) (count : Nat) :
    (uart.shifts count).sending = uart.sending.drop count := by
  induction count generalizing uart with
  | zero => rfl
  | succ count ih =>
      rw [Uart.shifts, ih, shift_sending, ← List.drop_one, List.drop_drop, Nat.add_comm]

theorem settled_sending (wire : Wire) (port : Clocked Uart) :
    (settled wire port).sending = port.state.sending.drop (wire.leave port.now) := by
  rw [settled, arrive_sending, shifts_sending]

/-- The transmitter after looks at the line status. -/
theorem checked_sending (wire : Wire) (port : Clocked Uart) (count : Nat) :
    (checked (nonzero (isTransmitEmpty (uartBus wire))) count port).now = port.now + count ∧
      (checked (nonzero (isTransmitEmpty (uartBus wire))) count port).state.sending =
        port.state.sending.drop (wire.takes port.now count) := by
  induction count with
  | zero => exact ⟨rfl, rfl⟩
  | succ count ih =>
      obtain ⟨now, sending⟩ := ih
      rw [checked_succ, empty_check]
      constructor
      · simp only [now]
        omega
      · simp only [settled_sending, sending, now, List.drop_drop, Wire.takes]

theorem checked_empty (wire : Wire) (port : Clocked Uart) (count : Nat) :
    (nonzero (isTransmitEmpty (uartBus wire))
        (checked (nonzero (isTransmitEmpty (uartBus wire))) count port)).1 = true ↔
      port.state.sending.length ≤ wire.takes port.now (count + 1) := by
  obtain ⟨now, sending⟩ := checked_sending wire port count
  rw [empty_check, decide_eq_true_eq, settled_sending, sending, now, List.drop_drop,
    List.drop_eq_nil_iff, Wire.takes]

/-- `serial_write` returns exactly when the line takes what waits in the transmitter. -/
theorem serialWrite_comes_iff (wire : Wire) (a : UInt8) (port : Clocked Uart) :
    (∃ port', Comes .outOfFuel (fun fuel => serialWrite (uartBus wire) fuel a port) (.ok port')) ↔
      ∃ count, port.state.sending.length ≤ wire.takes port.now (count + 1) := by
  constructor
  · rintro ⟨port', comes⟩
    by_contra never
    rw [not_exists] at never
    obtain ⟨needed, later⟩ := comes.enough
    have stuck := @await_never _ Fault .outOfFuel (nonzero (isTransmitEmpty (uartBus wire))) port
      (fun count => Bool.eq_false_iff.mpr fun yes => never count ((checked_empty _ _ _).mp yes))
      needed
    have run := later needed (Nat.le_refl _)
    rw [serialWrite, stuck] at run
    cases run
  · rintro ⟨count, enough⟩
    obtain ⟨between, comes⟩ := @await_comes _ Fault .outOfFuel
      (nonzero (isTransmitEmpty (uartBus wire))) port ⟨count, (checked_empty _ _ _).mpr enough⟩
    exact ⟨_, comes.bind (fun between => .ok ((uartBus wire).outb between PORT a))
      fun value _ => Comes.const _⟩

theorem serialWrite_fair (fair : wire.Fair) (a : UInt8) (port : Clocked Uart) :
    ∃ port', Comes .outOfFuel (fun fuel => serialWrite (uartBus wire) fuel a port) (.ok port') := by
  obtain ⟨count, enough⟩ := fair.takes port.now (port.state.sending.length)
  rw [serialWrite_comes_iff]
  refine ⟨count, ?_⟩
  rw [Wire.takes]
  omega

theorem serialWrites_fair (fair : wire.Fair) (chars : List UInt8) (port : Clocked Uart) :
    ∃ port', Comes .outOfFuel (fun fuel => chars.foldlM
      (fun port a => serialWrite (uartBus wire) fuel a port) port) (.ok port') := by
  induction chars generalizing port with
  | nil => exact ⟨port, Comes.const _⟩
  | cons a rest ih =>
      obtain ⟨between, first⟩ := serialWrite_fair fair a port
      obtain ⟨port', later⟩ := ih between
      refine ⟨port', ?_⟩
      simp only [List.foldlM_cons]
      refine first.bind (fun _ => .ok port') fun value same => ?_
      rw [Except.ok.injEq] at same
      exact same ▸ later

/-- The polling ends exactly when the line takes what waits, and if the line always goes on, all
of a string gets written. -/
theorem serial_returns (wire : Wire) :
    (∀ a port, (∃ port', Comes .outOfFuel (fun fuel => serialWrite (uartBus wire) fuel a port)
        (.ok port')) ↔
      ∃ count, port.state.sending.length ≤ wire.takes port.now (count + 1)) ∧
    (wire.Fair → ∀ (a : CString) port, ∃ port',
      Comes .outOfFuel (fun fuel => serialWritemany (uartBus wire) fuel a port) (.ok port')) :=
  ⟨fun a port => serialWrite_comes_iff wire a port,
    fun fair a port => serialWrites_fair fair a.chars port⟩

end

/-! `serial_init`, from any state of the UART. -/

def Uart.registers (uart : Uart) : UInt8 × UInt8 × UInt8 × UInt8 × UInt8 × UInt8 :=
  (uart.ier, uart.lcr, uart.mcr, uart.fcr, uart.dll, uart.dlm)

section

variable {wire : Wire} {port port' : Clocked Uart} {uart : Uart}

theorem receive_registers (uart : Uart) (byte : UInt8) :
    (uart.receive byte).registers = uart.registers ∧ (uart.receive byte).line = uart.line := by
  rw [Uart.receive]
  split
  · exact ⟨rfl, rfl⟩
  · exact ⟨rfl, rfl⟩

theorem shift_registers (uart : Uart) : uart.shift.registers = uart.registers := by
  rw [Uart.shift]
  split
  · rfl
  · split
    · exact (receive_registers _ _).1
    · rfl

theorem shifts_registers (uart : Uart) (count : Nat) :
    (uart.shifts count).registers = uart.registers := by
  induction count generalizing uart with
  | zero => rfl
  | succ count ih => rw [Uart.shifts, ih, shift_registers]

theorem receives_registers (uart : Uart) (bytes : List UInt8) :
    (bytes.foldl Uart.receive uart).registers = uart.registers ∧
      (bytes.foldl Uart.receive uart).line = uart.line := by
  induction bytes generalizing uart with
  | nil => exact ⟨rfl, rfl⟩
  | cons byte rest ih =>
      obtain ⟨registers, line⟩ := ih (uart.receive byte)
      obtain ⟨registers', line'⟩ := receive_registers uart byte
      exact ⟨registers.trans registers', line.trans line'⟩

theorem arrive_registers (uart : Uart) (bytes : List UInt8) :
    (uart.arrive bytes).registers = uart.registers ∧ (uart.arrive bytes).line = uart.line := by
  rw [Uart.arrive]
  split
  · exact ⟨rfl, rfl⟩
  · exact receives_registers uart bytes

theorem settled_registers (wire : Wire) (port : Clocked Uart) :
    (settled wire port).registers = port.state.registers := by
  rw [settled, (arrive_registers _ _).1, shifts_registers]

/-- In loopback mode the line stays as it is. -/
theorem shifts_loopback (loopback : uart.loopback = true) (count : Nat) :
    (uart.shifts count).line = uart.line := by
  induction count generalizing uart with
  | zero => rfl
  | succ count ih =>
      have mcr : uart.shift.mcr = uart.mcr := congrArg (fun r => r.2.2.1) (shift_registers uart)
      have still : uart.shift.loopback = true := by
        rw [Uart.loopback, mcr]
        exact loopback
      rw [Uart.shifts, ih still, Uart.shift]
      split
      · rfl
      · rw [loopback, if_pos rfl, (receive_registers _ _).2]

theorem settled_loopback (wire : Wire) (loopback : port.state.loopback = true) :
    (settled wire port).line = port.state.line := by
  rw [settled, (arrive_registers _ _).2, shifts_loopback loopback]

@[simp] theorem settled_lcr (wire : Wire) (port : Clocked Uart) :
    (settled wire port).lcr = port.state.lcr :=
  congrArg (fun registers => registers.2.1) (settled_registers wire port)

@[simp] theorem settled_mcr (wire : Wire) (port : Clocked Uart) :
    (settled wire port).mcr = port.state.mcr :=
  congrArg (fun registers => registers.2.2.1) (settled_registers wire port)

@[simp] theorem settled_fcr (wire : Wire) (port : Clocked Uart) :
    (settled wire port).fcr = port.state.fcr :=
  congrArg (fun registers => registers.2.2.2.1) (settled_registers wire port)

@[simp] theorem settled_dll (wire : Wire) (port : Clocked Uart) :
    (settled wire port).dll = port.state.dll :=
  congrArg (fun registers => registers.2.2.2.2.1) (settled_registers wire port)

@[simp] theorem settled_dlm (wire : Wire) (port : Clocked Uart) :
    (settled wire port).dlm = port.state.dlm :=
  congrArg (fun registers => registers.2.2.2.2.2) (settled_registers wire port)

/-- Nothing has left for the line but what waited in `before`. -/
structure Waiting (before uart : Uart) : Prop where
  line : uart.line <+: before.line ++ before.sending
  waits : uart.loopback = false → uart.line ++ uart.sending = before.line ++ before.sending

variable {before : Uart}

theorem Waiting.refl (uart : Uart) : Waiting uart uart := ⟨⟨uart.sending, rfl⟩, fun _ => rfl⟩

theorem Waiting.settled (wire : Wire) (waiting : Waiting before port.state) :
    Waiting before (settled wire port) := by
  cases loopback : port.state.loopback with
  | false =>
      have same : (OkeOS.settled wire port).line ++ (OkeOS.settled wire port).sending =
          before.line ++ before.sending := by
        rw [(settled_passed wire loopback).sent, waiting.waits loopback, List.append_nil]
      exact ⟨⟨_, same⟩, fun _ => same⟩
  | true =>
      constructor
      · rw [settled_loopback wire loopback]
        exact waiting.line
      · intro onLine
        rw [Uart.loopback, settled_mcr] at onLine
        exact absurd (onLine.symm.trans loopback) (by decide)

theorem write_low (dlab : uart.dlab = true) (value : UInt8) :
    uart.write 0 value = { uart with dll := value } := by
  rw [Uart.write, if_pos rfl, if_pos dlab]

theorem write_high (dlab : uart.dlab = true) (value : UInt8) :
    uart.write 1 value = { uart with dlm := value } := by
  rw [Uart.write, if_neg (by decide), if_pos rfl, if_pos dlab]

theorem write_lcr (uart : Uart) (value : UInt8) : uart.write 3 value = { uart with lcr := value } :=
  rfl

theorem write_mcr (uart : Uart) (value : UInt8) : uart.write 4 value = { uart with mcr := value } :=
  rfl

/-- A write that concerns neither the transmitter nor the modem. -/
theorem Waiting.congr {uart' : Uart} (waiting : Waiting before uart) (line : uart'.line = uart.line)
    (sending : uart'.sending = uart.sending) (mcr : uart'.mcr = uart.mcr) :
    Waiting before uart' := by
  constructor
  · rw [line]
    exact waiting.line
  · intro onLine
    rw [Uart.loopback, mcr] at onLine
    rw [line, sending]
    exact waiting.waits onLine

/-- A port on which nothing but what waited in `before` has left for the line. -/
structure SetUp (before : Uart) (now : Nat) (lcr dll dlm : UInt8) (port : Clocked Uart) : Prop where
  now : port.now = now
  waiting : Waiting before port.state
  lcr : port.state.lcr = lcr
  dll : port.state.dll = dll
  dlm : port.state.dlm = dlm

section

variable {now : Nat} {lcr dll dlm : UInt8} (wire) (setUp : SetUp before now lcr dll dlm port)

include setUp

theorem SetUp.outb_lcr (value : UInt8) :
    SetUp before (now + 1) value dll dlm ((uartBus wire).outb port (PORT + 3) value) := by
  rw [bus_outb, write_lcr]
  refine ⟨by rw [setUp.now], (setUp.waiting.settled wire).congr rfl rfl rfl, rfl, ?_, ?_⟩
  · rw [settled_dll, setUp.dll]
  · rw [settled_dlm, setUp.dlm]

theorem SetUp.dlab (latch : lcr &&& 0x80 ≠ 0) : (settled wire port).dlab = true := by
  rw [Uart.dlab, settled_lcr, setUp.lcr]
  exact decide_eq_true latch

theorem SetUp.outb_low (latch : lcr &&& 0x80 ≠ 0) (value : UInt8) :
    SetUp before (now + 1) lcr value dlm ((uartBus wire).outb port (PORT + 0) value) := by
  rw [bus_outb, write_low (setUp.dlab wire latch)]
  refine ⟨by rw [setUp.now], (setUp.waiting.settled wire).congr rfl rfl rfl, ?_, rfl, ?_⟩
  · rw [settled_lcr, setUp.lcr]
  · rw [settled_dlm, setUp.dlm]

theorem SetUp.outb_high (latch : lcr &&& 0x80 ≠ 0) (value : UInt8) :
    SetUp before (now + 1) lcr dll value ((uartBus wire).outb port (PORT + 1) value) := by
  rw [bus_outb, write_high (setUp.dlab wire latch)]
  refine ⟨by rw [setUp.now], (setUp.waiting.settled wire).congr rfl rfl rfl, ?_, ?_, rfl⟩
  · rw [settled_lcr, setUp.lcr]
  · rw [settled_dll, setUp.dll]

end

/-- The UART after the first six accesses of `serial_init`. -/
structure Reset (before uart : Uart) : Prop where
  line : uart.line <+: before.line ++ before.sending
  sending : uart.sending = []
  received : uart.received = []
  lcr : uart.lcr = 0x03
  fcr : uart.fcr = 0xC7
  dll : uart.dll = 0x03
  dlm : uart.dlm = 0x00

/-- The six accesses. -/
def reset {δ : Type} (bus : Device δ) (port : δ) : δ :=
  let port := bus.outb port (PORT + 1) 0x00
  let port := bus.outb port (PORT + 3) 0x80
  let port := bus.outb port (PORT + 0) 0x03
  let port := bus.outb port (PORT + 1) 0x00
  let port := bus.outb port (PORT + 3) 0x03
  bus.outb port (PORT + 2) 0xC7

theorem reset_spec (wire : Wire) (port : Clocked Uart) :
    (reset (uartBus wire) port).now = port.now + 6 ∧
      Reset port.state (reset (uartBus wire) port).state := by
  obtain ⟨first, firstEq⟩ : ∃ first, (uartBus wire).outb port (PORT + 1) 0x00 = first := ⟨_, rfl⟩
  have setUp₁ : SetUp port.state (port.now + 1) first.state.lcr first.state.dll first.state.dlm
      first := by
    have settling := (Waiting.refl port.state).settled wire
    refine ⟨by rw [← firstEq, bus_outb], ?_, rfl, rfl, rfl⟩
    rw [← firstEq, bus_outb, Uart.write, if_neg (by decide), if_pos rfl]
    split
    · exact settling.congr rfl rfl rfl
    · exact settling.congr rfl rfl rfl
  have setUp₂ := setUp₁.outb_lcr wire 0x80
  have setUp₃ := setUp₂.outb_low wire (by decide) 0x03
  have setUp₄ := setUp₃.outb_high wire (by decide) 0x00
  have setUp₅ := setUp₄.outb_lcr wire 0x03
  simp only [reset, firstEq]
  generalize (uartBus wire).outb ((uartBus wire).outb ((uartBus wire).outb ((uartBus wire).outb
    first (PORT + 3) 0x80) (PORT + 0) 0x03) (PORT + 1) 0x00) (PORT + 3) 0x03 = fifth at setUp₅ ⊢
  rw [bus_outb]
  refine ⟨by rw [setUp₅.now], (setUp₅.waiting.settled wire).line, ?_, ?_, ?_, rfl, ?_, ?_⟩
  · exact if_pos (Or.inr (by decide))
  · exact if_pos (Or.inr (by decide))
  · exact (settled_lcr wire fifth).trans setUp₅.lcr
  · exact (settled_dll wire fifth).trans setUp₅.dll
  · exact (settled_dlm wire fifth).trans setUp₅.dlm

/-- Where nothing waits and nothing comes, time does nothing. -/
theorem settled_quiet (empty : port.state.sending = []) (quiet : wire.come port.now = []) :
    settled wire port = port.state := by
  rw [settled, shifts_empty empty, quiet, Uart.arrive]
  split
  · rfl
  · rfl

/-- The UART while the test byte is under way. -/
theorem shifts_test {uart : Uart} (loopback : uart.loopback = true) (fcr : uart.fcr = 0xC7)
    (sending : uart.sending = [0xAE]) (received : uart.received = []) {count : Nat}
    (positive : 0 < count) :
    uart.shifts count =
      { uart with sending := [], received := [0xAE], taken := uart.taken ++ [0xAE] } := by
  obtain ⟨more, rfl⟩ : ∃ more, count = more + 1 := ⟨count - 1, by omega⟩
  have room : (0 : Nat) < { uart with sending := [], received := [] }.room := by
    rw [Uart.room, fcr]
    decide
  have shifted : uart.shift =
      { uart with sending := [], received := [0xAE], taken := uart.taken ++ [0xAE] } := by
    rw [Uart.shift, sending]
    simp only [loopback, if_true, Uart.receive, received, List.length_nil, room, List.nil_append]
  rw [Uart.shifts, shifted, shifts_empty rfl]

/-- The four accesses behind `reset` before the test byte is read. -/
def sendTest {δ : Type} (bus : Device δ) (port : δ) : δ :=
  let port := bus.outb port (PORT + 4) 0x0B
  let port := bus.outb port (PORT + 4) 0x1E
  bus.outb port (PORT + 0) 0xAE

theorem serialInit_eq {δ : Type} (bus : Device δ) (port : δ) :
    serialInit bus port =
      (let (value, port) := bus.inb (sendTest bus (reset bus port)) (PORT + 0)
      if value ≠ 0xAE then (1, port) else (0, bus.outb port (PORT + 4) 0x0F)) :=
  rfl

theorem outb_quiet (empty : port.state.sending = []) (quiet : wire.come port.now = [])
    (offset : UInt16) (value : UInt8) :
    (uartBus wire).outb port (PORT + offset) value =
      ⟨port.state.write offset value, port.now + 1⟩ := by
  rw [bus_outb, settled_quiet empty quiet]

theorem sendTest_spec (reset : Reset before port.state)
    (quiet : ∀ count < 3, wire.come (port.now + count) = []) :
    sendTest (uartBus wire) port =
      ⟨{ port.state with mcr := 0x1E, sending := [0xAE] }, port.now + 3⟩ := by
  obtain ⟨uart, now⟩ := port
  have data : { uart with mcr := 0x1E }.write 0 0xAE =
      { uart with mcr := 0x1E, sending := [0xAE] } := by
    have latch : { uart with mcr := 0x1E }.dlab = false := by
      rw [Uart.dlab, reset.lcr]
      decide
    have room : (0 : Nat) < { uart with mcr := 0x1E }.room := by
      rw [Uart.room, reset.fcr]
      decide
    have empty : uart.sending = [] := reset.sending
    rw [Uart.write, if_pos rfl, latch, if_neg (by decide), if_pos (by rw [empty]; exact room)]
    simp [empty]
  have step (loaded : Uart) (count : Nat) (less : count < 3) (empty : loaded.sending = [])
      (offset : UInt16) (value : UInt8) :
      (uartBus wire).outb ⟨loaded, now + count⟩ (PORT + offset) value =
        ⟨loaded.write offset value, now + count + 1⟩ :=
    outb_quiet empty (quiet count less) offset value
  have first := step uart 0 (by decide) reset.sending 4 0x0B
  have second := step { uart with mcr := 0x0B } 1 (by decide) reset.sending 4 0x1E
  have third := step { uart with mcr := 0x1E } 2 (by decide) reset.sending 0 0xAE
  rw [write_mcr] at first second
  rw [data] at third
  rw [Nat.add_zero] at first
  rw [sendTest, first]
  simp only [second, third]

/-- How `serial_init` ends, when nothing comes in meanwhile and an empty receiver does not read
as the test byte.  It returns 0 exactly when the test byte gets round before it is read. -/
theorem serialInit_spec (quiet : ∀ count < 11, wire.come (port.now + count) = [])
    (honest : wire.idle ≠ 0xAE) :
    (0 < wire.leave (port.now + 9) ∧ ∃ after, serialInit (uartBus wire) port = (0, after) ∧
      Reset port.state after.state ∧ after.state.mcr = 0x0F) ∨
    (wire.leave (port.now + 9) = 0 ∧ ∃ after, serialInit (uartBus wire) port = (1, after) ∧
      after.state.line <+: port.state.line ++ port.state.sending ∧
      after.state.loopback = true) := by
  obtain ⟨now, isReset⟩ := reset_spec wire port
  have sent := sendTest_spec isReset fun count less => by
    rw [now, Nat.add_assoc]
    exact quiet (6 + count) (by omega)
  rw [now] at sent
  rw [serialInit_eq, sent]
  generalize (reset (uartBus wire) port).state = uart at isReset sent ⊢
  clear sent now
  obtain ⟨test, testEq⟩ : ∃ test, test = { uart with mcr := 0x1E, sending := [0xAE] } := ⟨_, rfl⟩
  have loopback : test.loopback = true := by
    subst testEq
    change decide ((0x1E : UInt8) &&& 0x10 ≠ 0) = true
    decide
  have data : test.dlab = false := by
    rw [testEq, Uart.dlab, isReset.lcr]
    decide
  have fcr : test.fcr = 0xC7 := testEq ▸ isReset.fcr
  have sending : test.sending = [0xAE] := by rw [testEq]
  have received : test.received = [] := testEq ▸ isReset.received
  have settling : settled wire ⟨test, port.now + 6 + 3⟩ = test.shifts (wire.leave (port.now + 9)) := by
    rw [settled, quiet 9 (by decide), Uart.arrive]
    split
    · rfl
    · rfl
  rw [← testEq, bus_inb, settling]
  cases leaves : wire.leave (port.now + 9) with
  | zero =>
      right
      have reads : test.read wire.idle 0 = (wire.idle, test) := by
        rw [Uart.read, if_pos rfl, data, if_neg (by decide), received]
      refine ⟨rfl, ⟨test, port.now + 6 + 3 + 1⟩, ?_, ?_, loopback⟩
      · simp only [Uart.shifts, reads, if_pos honest]
      · rw [testEq]
        exact isReset.line
  | succ more =>
      left
      have came := shifts_test loopback fcr sending received (Nat.succ_pos more)
      have reads : (test.shifts (more + 1)).read wire.idle 0 =
          (0xAE, { test with sending := [], received := [], taken := test.taken ++ [0xAE] }) := by
        have noLatch : ¬test.dlab = true := by simp [data]
        rw [came, Uart.read, if_pos rfl]
        exact if_neg noLatch
      refine ⟨Nat.succ_pos more, ⟨{ test with
        sending := []
        received := []
        taken := test.taken ++ [0xAE]
        mcr := 0x0F }, port.now + 11⟩, ?_, ?_, rfl⟩
      · simp only [reads]
        rw [if_neg (by decide), outb_quiet rfl (quiet 10 (by decide)), write_mcr]
      · subst testEq
        exact ⟨isReset.line, rfl, rfl, isReset.lcr, isReset.fcr, isReset.dll, isReset.dlm⟩

/-! In loopback mode nothing gets out. -/

/-- The line has `line`, and stays as it is. -/
def Looped (line : List UInt8) (port : Clocked Uart) : Prop :=
  port.state.loopback = true ∧ port.state.line = line

variable {line : List UInt8} {fuel : Nat}

theorem Looped.settled (wire : Wire) (looped : Looped line port) (now : Nat) :
    Looped line ⟨settled wire port, now⟩ := by
  constructor
  · rw [Uart.loopback, settled_mcr]
    exact looped.1
  · exact (settled_loopback wire looped.1).trans looped.2

theorem Looped.outb (wire : Wire) (looped : Looped line port) (value : UInt8) :
    Looped line ((uartBus wire).outb port PORT value) := by
  have settling := looped.settled wire (port.now + 1)
  rw [← UInt16.add_zero PORT, bus_outb, Uart.write, if_pos rfl]
  split
  · exact settling
  · split
    · exact settling
    · exact settling

theorem Looped.inb (wire : Wire) (looped : Looped line port) :
    Looped line ((uartBus wire).inb port PORT).2 := by
  have settling := looped.settled wire (port.now + 1)
  rw [← UInt16.add_zero PORT, bus_inb, Uart.read, if_pos rfl]
  split
  · exact settling
  · split
    · exact settling
    · exact settling

theorem Looped.write {a : UInt8} (looped : Looped line port)
    (run : serialWrite (uartBus wire) fuel a port = .ok port') : Looped line port' := by
  obtain ⟨between, polled, result⟩ := Fault.peel run
  obtain ⟨last, kept, _, rfl⟩ := await_last (Looped line)
    (fun now kept => by
      rw [empty_check]
      exact kept.settled wire _)
    looped polled
  rw [empty_check, Except.ok.injEq] at result
  rw [← result]
  exact (kept.settled wire _).outb wire a

theorem Looped.writes {chars : List UInt8} (looped : Looped line port)
    (run : chars.foldlM (fun port a => serialWrite (uartBus wire) fuel a port) port = .ok port') :
    Looped line port' := by
  induction chars generalizing port with
  | nil =>
      obtain rfl : port = port' := Except.ok.inj run
      exact looped
  | cons a rest ih =>
      rw [List.foldlM_cons] at run
      obtain ⟨between, wrote, run⟩ := Fault.peel run
      exact ih (looped.write wrote) run

theorem Looped.call {call : SerialCall} {bytes : List UInt8} (looped : Looped line port)
    (run : call.run (uartBus wire) fuel port = .ok (bytes, port')) : Looped line port' := by
  cases call with
  | write a =>
      obtain ⟨after, wrote, result⟩ := Fault.peel run
      rw [Except.ok.injEq, Prod.mk.injEq] at result
      obtain ⟨rfl, rfl⟩ := result
      exact looped.write wrote
  | writemany a =>
      obtain ⟨after, wrote, result⟩ := Fault.peel run
      rw [Except.ok.injEq, Prod.mk.injEq] at result
      obtain ⟨rfl, rfl⟩ := result
      exact looped.writes wrote
  | read =>
      obtain ⟨⟨c, after⟩, took, result⟩ := Fault.peel run
      rw [Except.ok.injEq, Prod.mk.injEq] at result
      obtain ⟨rfl, rfl⟩ := result
      obtain ⟨between, polled, result⟩ := Fault.peel took
      obtain ⟨last, kept, _, rfl⟩ := await_last (Looped line)
        (fun now kept => by
          rw [received_check]
          exact kept.settled wire _)
        looped polled
      rw [received_check, Except.ok.injEq] at result
      have read := (kept.settled wire (last.now + 1)).inb wire
      rw [result] at read
      exact read

theorem Looped.calls {calls : List SerialCall} {bytes : List UInt8} (looped : Looped line port)
    (run : runCalls (uartBus wire) fuel calls port = .ok (bytes, port')) : Looped line port' := by
  induction calls generalizing port bytes with
  | nil =>
      rw [runCalls, Except.ok.injEq, Prod.mk.injEq] at run
      obtain ⟨rfl, rfl⟩ := run
      exact looped
  | cons call rest ih =>
      obtain ⟨⟨first, between⟩, called, run⟩ := Fault.peel run
      obtain ⟨⟨later, after⟩, others, result⟩ := Fault.peel run
      simp only [Except.ok.injEq, Prod.mk.injEq] at result
      obtain ⟨rfl, rfl⟩ := result
      exact ih (looped.call called) others

end

/-- `serial_init` and any calls after it, whatever the UART did before and at whatever pace it
sends and receives.  After a result of 0 the line gets the bytes written, in order, and the bytes
read are those that came in, in order; after a result of 1 nothing gets out any more. -/
theorem serial_run {wire : Wire} {port port₁ port₂ : Clocked Uart} {fuel result : Nat}
    {calls : List SerialCall} {bytes : List UInt8}
    (quiet : ∀ count < 11, wire.come (port.now + count) = []) (honest : wire.idle ≠ 0xAE)
    (init : serialInit (uartBus wire) port = (result, port₁))
    (run : runCalls (uartBus wire) fuel calls port₁ = .ok (bytes, port₂)) :
    (result = 0 ↔ 0 < wire.leave (port.now + 9)) ∧
    port₁.state.line <+: port.state.line ++ port.state.sending ∧
    (result = 0 →
      port₂.state.line ++ port₂.state.sending =
        port₁.state.line ++ calls.flatMap SerialCall.written ∧
      port₂.state.lost = port₁.state.lost ∧
      port₂.state.taken = port₁.state.taken ++ bytes ++ port₂.state.received) ∧
    (result ≠ 0 → port₂.state.line = port₁.state.line) := by
  rcases serialInit_spec quiet honest with ⟨leaves, after, ended, isReset, mcr⟩ |
    ⟨stays, after, ended, line, loopback⟩
  · rw [ended, Prod.mk.injEq] at init
    obtain ⟨rfl, rfl⟩ := init
    have ready : after.state.Ready := by
      constructor
      · rw [Uart.dlab, isReset.lcr]
        decide
      · rw [Uart.loopback, mcr]
        decide
    have passed := runCalls_passed ready run
    obtain ⟨new, received, taken⟩ := passed.came
    rw [isReset.received, List.nil_append] at received
    refine ⟨iff_of_true rfl leaves, isReset.line, fun _ => ⟨?_, passed.lost, ?_⟩,
      fun nonzero => absurd rfl nonzero⟩
    · rw [passed.sent, isReset.sending, List.append_nil]
    · rw [taken, ← received, List.append_assoc]
  · rw [ended, Prod.mk.injEq] at init
    obtain ⟨rfl, rfl⟩ := init
    have looped : Looped after.state.line after := ⟨loopback, rfl⟩
    exact ⟨iff_of_false (by decide) (by omega), line, fun zero => absurd zero (by decide),
      fun _ => (looped.calls run).2⟩

/-- A line that takes a byte before every access, and on which one byte comes in. -/
def echoWire : Wire where
  leave := fun _ => 1
  come := fun now => if now = 13 then ['k'.toUInt8] else []
  idle := 0

def silentUart : Uart where
  ier := 0
  lcr := 0
  mcr := 0
  fcr := 0
  dll := 0
  dlm := 0
  sending := []
  received := []
  line := []
  taken := []
  lost := []

/-- The bytes read after one byte is written. -/
def echo : Except Fault (List UInt8) := do
  let (bytes, _) ← runCalls (uartBus echoWire) 2 [.write 'o'.toUInt8, .read]
    (serialInit (uartBus echoWire) ⟨silentUart, 0⟩).2
  .ok bytes

theorem serial_run_echo : ∃ port₁ port₂, serialInit (uartBus echoWire) ⟨silentUart, 0⟩ = (0, port₁) ∧
    runCalls (uartBus echoWire) 2 [.write 'o'.toUInt8, .read] port₁ =
      .ok (['k'.toUInt8], port₂) ∧
    port₂.state.line ++ port₂.state.sending = port₁.state.line ++ ['o'.toUInt8] := by
  have evaluated : echo = .ok ['k'.toUInt8] := by decide +kernel
  obtain ⟨⟨bytes, port₂⟩, run, result⟩ := Fault.peel evaluated
  obtain rfl : bytes = ['k'.toUInt8] := Except.ok.inj result
  cases init : serialInit (uartBus echoWire) ⟨silentUart, 0⟩ with
  | mk result port₁ =>
      rw [init] at run
      obtain ⟨started, _, sent, _⟩ := serial_run (by decide) (by decide) init run
      obtain rfl : result = 0 := started.mpr (by decide)
      exact ⟨port₁, port₂, rfl, run, (sent rfl).1⟩

end OkeOS
