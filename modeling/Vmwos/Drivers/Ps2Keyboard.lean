import Vmwos.Lib.Base
import Mathlib.Data.List.Chain

/-!
# The PS/2 keyboard

The keyboard clocks out a byte as a packet of eleven bits, and each bit is an interrupt. The handler
is two machines: one takes the bits of a packet into a shift register, the other one takes the bytes
and remembers the prefixes of a key. A gap in time clears the first and leaves the second alone, so
that bits that have been lost do no harm beyond their own byte: `keyCalls_eq`.
-/

set_option autoImplicit false

namespace Vmwos

/-! ## The handler -/

/-- The variables of the second machine. -/
structure KeyFlags where
  keyup : Nat
  escape : Nat
  pause : Nat
  deriving DecidableEq, Repr

/-- The variables of the first machine. -/
structure Packet where
  parity : Nat
  clockBits : Nat
  message : Nat
  deriving DecidableEq, Repr

/-- The state of `ps2-keyboard.c`, other than that of `translate_key`. -/
structure Ps2 where
  keys : KeyFlags
  packet : Packet
  oldTicks : UInt32
  deriving DecidableEq, Repr

/-- An interrupt: the time, and the data line. -/
structure Interrupt where
  tickCounter : UInt32
  dataValue : Bool
  deriving DecidableEq, Repr

/-- A call of `translate_key`. -/
structure KeyCall where
  key : Nat
  down : Bool
  deriving DecidableEq, Repr

/-- What the handler calls. -/
structure Ps2Reply where
  calls : List KeyCall
  printed : List PrintkCall

/-- No prefix has been seen. -/
def KeyFlags.idle : KeyFlags := ⟨0, 0, 0⟩

/-- The state at the start. -/
def Ps2.start : Ps2 := ⟨.idle, ⟨0, 0, 0⟩, 0⟩

/-- What a byte does. -/
def KeyFlags.receive (keys : KeyFlags) (key : Nat) : List KeyCall × KeyFlags :=
  if key = 0xf0 then ([], { keys with keyup := 1 })
  else if key = 0xe0 then ([], { keys with escape := 1 })
  else if key = 0xe1 then ([], { keys with pause := 2 })
  else if keys.pause = 2 then ([], { keys with pause := 1 })
  else
    let (key, keys) := if keys.pause = 1 then (0x88, { keys with pause := 0 }) else (key, keys)
    let (key, keys) := if keys.escape = 1 then (key ||| 0x80, { keys with escape := 0 })
      else (key, keys)
    ([⟨key, keys.keyup = 0⟩], { keys with keyup := 0 })

namespace Packet

/-- Before the first bit. -/
def clear : Packet := ⟨0, 0, 0⟩

/-- One more bit, shifted in from above. -/
def shiftIn (packet : Packet) (dataValue : Bool) : Packet where
  clockBits := packet.clockBits + 1
  parity := packet.parity + dataValue.toNat
  message := (packet.message ||| dataValue.toNat <<< 11) >>> 1

/-- The messages about a packet that is not valid. Nothing else comes of it. -/
def printed (packet : Packet) : List PrintkCall :=
  let word := UInt32.ofNat packet.message
  (if packet.message &&& 0x1 ≠ 0 then [⟨"Invalid start bit %x\n", [word]⟩] else []) ++
    (if packet.message &&& 0x400 = 0 then [⟨"Invaid stop bit %x\n", [word]⟩] else []) ++
    if ((packet.message &&& 0x200 >>> 8) &&& 0x1) + (packet.parity &&& 0x1) &&& 0x1 ≠ 0 then
      [⟨"Parity error %x %x\n", [word, UInt32.ofNat packet.parity]⟩]
    else []

/-- The byte of a packet. -/
def key (packet : Packet) : Nat := packet.message >>> 1 &&& 0xff

end Packet

namespace Ps2

/-- A packet that has been waiting for too long is given up. -/
def resync (s : Ps2) (tickCounter : UInt32) : Ps2 :=
  let oldTicks := if s.oldTicks = 0 then tickCounter else s.oldTicks
  { s with
    packet := if tickCounter - oldTicks > 2 then .clear else s.packet
    oldTicks := tickCounter }

/-- The rest of the handler: a bit is taken, and behind the eleventh the byte. -/
def takeBit (s : Ps2) (dataValue : Bool) : Ps2Reply × Ps2 :=
  let packet := s.packet.shiftIn dataValue
  if packet.clockBits ≠ 11 then (⟨[], []⟩, { s with packet := packet })
  else
    let (calls, keys) := s.keys.receive packet.key
    (⟨calls, packet.printed⟩, { s with keys := keys, packet := .clear })

end Ps2

/-- `ps2_interrupt_handler` -/
def ps2InterruptHandler (s : Ps2) (interrupt : Interrupt) : Ps2Reply × Ps2 :=
  (s.resync interrupt.tickCounter).takeBit interrupt.dataValue

/-- The calls of `translate_key` in a sequence of interrupts, and the state behind it. -/
def handleAll (s : Ps2) : List Interrupt → List KeyCall × Ps2
  | [] => ([], s)
  | interrupt :: interrupts =>
      let (reply, s) := ps2InterruptHandler s interrupt
      let (calls, s) := handleAll s interrupts
      (reply.calls ++ calls, s)

/-! ## What a keyboard sends -/

/-- A scan code that is no prefix. -/
def ScanCode : Type := { code : UInt8 // code ≠ 0xe0 ∧ code ≠ 0xe1 ∧ code ≠ 0xf0 }

/-- A key that is pressed or released. -/
inductive KeyEvent where
  | key (code : ScanCode) (extended released : Bool)
  | pause (released : Bool)

namespace KeyEvent

/-- The bytes of an event, in scan code set 2. -/
def bytes : KeyEvent → List UInt8
  | key code extended released =>
      (if extended then [0xe0] else []) ++ ((if released then [0xf0] else []) ++ [code.1])
  | pause false => [0xe1, 0x14, 0x77]
  | pause true => [0xe1, 0xf0, 0x14, 0xf0, 0x77]

/-- The call of `translate_key` that is meant to come of it. -/
def call : KeyEvent → KeyCall
  | key code extended released =>
      ⟨if extended then code.1.toNat ||| 0x80 else code.1.toNat, !released⟩
  | pause released => ⟨0x88, !released⟩

end KeyEvent

/-- The eight bits of a byte, the lowest one first. -/
def dataBits (byte : UInt8) : List Bool := (List.range 8).map fun i => byte.toNat.testBit i

/-- A valid packet: the start bit, the byte, a bit that makes the ones odd, and the stop bit. -/
def packetBits (byte : UInt8) : List Bool :=
  false :: (dataBits byte ++ [decide ((dataBits byte).count true % 2 = 0), true])

/-- The time between two interrupts in the same packet. -/
def InTime (before after : Interrupt) : Prop := after.tickCounter - before.tickCounter ≤ 2

/-- Bytes on the wire. Between the packets there may be fragments of less than eleven bits, each
followed by a gap. -/
inductive Sends : List Interrupt → List UInt8 → Prop where
  | done : Sends [] []
  | packet {byte : UInt8} {bits rest : List Interrupt} {bytes : List UInt8}
      (hbits : bits.map Interrupt.dataValue = packetBits byte) (hgaps : bits.IsChain InTime)
      (hrest : Sends rest bytes) : Sends (bits ++ rest) (byte :: bytes)
  | fragment {bits rest : List Interrupt} {bytes : List UInt8} (hshort : bits.length < 11)
      (hgap : ∀ before after, bits.getLast? = some before → rest.head? = some after →
        2 < after.tickCounter - before.tickCounter)
      (hrest : Sends rest bytes) : Sends (bits ++ rest) bytes

/-! ## The first machine -/

section Packets

variable {s : Ps2} {packet : Packet} {interrupt : Interrupt} {bits rest : List Interrupt}

theorem handleAll_cons : handleAll s (interrupt :: bits) =
    (((s.resync interrupt.tickCounter).takeBit interrupt.dataValue).1.calls ++
      (handleAll ((s.resync interrupt.tickCounter).takeBit interrupt.dataValue).2 bits).1,
      (handleAll ((s.resync interrupt.tickCounter).takeBit interrupt.dataValue).2 bits).2) := rfl

theorem handleAll_append : handleAll s (bits ++ rest) =
    ((handleAll s bits).1 ++ (handleAll (handleAll s bits).2 rest).1,
      (handleAll (handleAll s bits).2 rest).2) := by
  induction bits generalizing s with
  | nil => rfl
  | cons interrupt bits ih =>
      rw [List.cons_append, handleAll_cons, handleAll_cons, ih, List.append_assoc]

/-- In time nothing is given up. -/
theorem resync_inTime {tick : UInt32} (hne : s.oldTicks ≠ 0) (hgap : tick - s.oldTicks ≤ 2) :
    s.resync tick = { s with oldTicks := tick } := by
  rw [Ps2.resync, if_neg hne, if_neg (UInt32.not_lt.2 hgap)]

/-- When nothing has been received there is nothing to be given up. -/
theorem resync_clear {tick : UInt32} (h : s.packet = .clear) :
    s.resync tick = { s with oldTicks := tick } := by
  rw [Ps2.resync, h, ite_self]

theorem resync_gap {tick : UInt32} (hne : s.oldTicks ≠ 0) (hgap : 2 < tick - s.oldTicks) :
    s.resync tick = { s with packet := .clear, oldTicks := tick } := by
  rw [Ps2.resync, if_neg hne, if_pos hgap]

theorem clockBits_resync (s : Ps2) (tick : UInt32) :
    (s.resync tick).packet.clockBits ≤ s.packet.clockBits := by
  have hpacket : (s.resync tick).packet = .clear ∨ (s.resync tick).packet = s.packet :=
    ite_eq_or_eq _ _ _
  rcases hpacket with hclear | hsame
  · rw [hclear]
    exact Nat.zero_le _
  · rw [hsame]

theorem takeBit_short {dataValue : Bool} (h : s.packet.clockBits + 1 ≠ 11) :
    s.takeBit dataValue = (⟨[], []⟩, { s with packet := s.packet.shiftIn dataValue }) :=
  if_pos h

theorem takeBit_last {dataValue : Bool} (h : s.packet.clockBits + 1 = 11) :
    s.takeBit dataValue = (⟨(s.keys.receive (s.packet.shiftIn dataValue).key).1,
      (s.packet.shiftIn dataValue).printed⟩,
      ⟨(s.keys.receive (s.packet.shiftIn dataValue).key).2, .clear, s.oldTicks⟩) :=
  if_neg (not_not_intro h)

/-- What is left of a packet, from a bit on that has come in time. The induction is on the bits that
follow. -/
theorem handleAll_packet (hgaps : (interrupt :: bits).IsChain InTime)
    (hticks : ∀ i ∈ interrupt :: bits, i.tickCounter ≠ 0)
    (hresync : s.resync interrupt.tickCounter = ⟨s.keys, packet, interrupt.tickCounter⟩)
    (hlength : packet.clockBits + (bits.length + 1) = 11) :
    ∃ tick, handleAll s (interrupt :: bits) =
      ((s.keys.receive
          (((interrupt :: bits).map Interrupt.dataValue).foldl Packet.shiftIn packet).key).1,
        ⟨(s.keys.receive
          (((interrupt :: bits).map Interrupt.dataValue).foldl Packet.shiftIn packet).key).2,
          .clear, tick⟩) := by
  induction bits generalizing s interrupt packet with
  | nil =>
      have hlast : packet.clockBits + 1 = 11 := hlength
      refine ⟨interrupt.tickCounter, ?_⟩
      rw [handleAll_cons, hresync, takeBit_last hlast, handleAll, List.append_nil]
      rfl
  | cons next bits ih =>
      obtain ⟨hgap, hgaps'⟩ := List.isChain_cons_cons.1 hgaps
      obtain ⟨hne, hticks'⟩ := List.forall_mem_cons.1 hticks
      rw [List.length_cons] at hlength
      have hshort : packet.clockBits + 1 ≠ 11 := by omega
      -- the bit is in the register when the next one comes
      have hnext := @ih ⟨s.keys, packet.shiftIn interrupt.dataValue, interrupt.tickCounter⟩
        (packet.shiftIn interrupt.dataValue) next hgaps' hticks' (resync_inTime hne hgap)
        (by rw [← hlength]; exact Nat.add_right_comm _ 1 _)
      rw [handleAll_cons, hresync, takeBit_short hshort]
      exact hnext

/-- Less than eleven bits do nothing, whatever the time between them. -/
theorem handleAll_fragment
    (hshort : (s.resync interrupt.tickCounter).packet.clockBits + (bits.length + 1) < 11) :
    ∃ s', handleAll s (interrupt :: bits) = ([], s') ∧ s'.keys = s.keys ∧
      ∀ i, (interrupt :: bits).getLast? = some i → s'.oldTicks = i.tickCounter := by
  have hnot : (s.resync interrupt.tickCounter).packet.clockBits + 1 ≠ 11 := by omega
  induction bits generalizing s interrupt with
  | nil =>
      rw [handleAll_cons, takeBit_short hnot]
      refine ⟨_, rfl, rfl, fun i hi => ?_⟩
      rw [← Option.some.inj hi]
      rfl
  | cons next bits ih =>
      rw [handleAll_cons, takeBit_short hnot]
      let s₁ : Ps2 := { s.resync interrupt.tickCounter with
        packet := (s.resync interrupt.tickCounter).packet.shiftIn interrupt.dataValue }
      have hle := clockBits_resync s₁ next.tickCounter
      have hbits : s₁.packet.clockBits =
        (s.resync interrupt.tickCounter).packet.clockBits + 1 := rfl
      rw [List.length_cons] at hshort
      obtain ⟨s', hrun, hkeys, hlast⟩ := @ih s₁ next (by omega) (by omega)
      refine ⟨s', by rw [hrun]; rfl, hkeys, ?_⟩
      rw [List.getLast?_cons_cons]
      exact hlast

end Packets

/-! ## Bytes -/

section Bytes

variable {s : Ps2} {bits rest : List Interrupt} {bytes more : List UInt8} {keys : KeyFlags}

/-- The calls that bytes lead to, and the flags behind them. -/
def KeyFlags.receiveAll (keys : KeyFlags) : List UInt8 → List KeyCall × KeyFlags
  | [] => ([], keys)
  | byte :: bytes =>
      let (calls, keys) := keys.receive byte.toNat
      let (more, keys) := keys.receiveAll bytes
      (calls ++ more, keys)

theorem receiveAll_append : keys.receiveAll (bytes ++ more) =
    ((keys.receiveAll bytes).1 ++ ((keys.receiveAll bytes).2.receiveAll more).1,
      ((keys.receiveAll bytes).2.receiveAll more).2) := by
  induction bytes generalizing keys with
  | nil => rfl
  | cons byte bytes ih =>
      simp only [List.cons_append, KeyFlags.receiveAll, ih, List.append_assoc]

/-- The register holds the byte when all bits of its packet have been shifted in. -/
theorem key_packetBits (byte : UInt8) :
    ((packetBits byte).foldl Packet.shiftIn .clear).key = byte.toNat := by
  have hall : ∀ n : Fin 256,
      ((packetBits (UInt8.ofNat n)).foldl Packet.shiftIn .clear).key = (UInt8.ofNat n).toNat := by
    decide +kernel
  have hbyte : UInt8.ofNat byte.toNat = byte := UInt8.ofNat_toNat
  have h := hall ⟨byte.toNat, byte.toNat_lt⟩
  rwa [hbyte] at h

theorem length_packetBits (byte : UInt8) : (packetBits byte).length = 11 := by
  simp [packetBits, dataBits]

/-- Whatever comes next starts with an empty register: it is empty, or is going to be given up. -/
def Ps2.Ready (s : Ps2) (interrupts : List Interrupt) : Prop :=
  s.packet = .clear ∨ ∀ next, interrupts.head? = some next →
    s.oldTicks ≠ 0 ∧ 2 < next.tickCounter - s.oldTicks

theorem Ps2.Ready.resync {next : Interrupt} (h : s.Ready (next :: rest)) :
    s.resync next.tickCounter = ⟨s.keys, .clear, next.tickCounter⟩ := by
  rcases h with hclear | hgap
  · rw [resync_clear hclear, hclear]
  · obtain ⟨hne, hlate⟩ := hgap next rfl
    exact resync_gap hne hlate

/-- A packet is taken for its byte. -/
theorem Sends.handle_packet {byte : UInt8} (hready : s.Ready (bits ++ rest))
    (hbits : bits.map Interrupt.dataValue = packetBits byte) (hgaps : bits.IsChain InTime)
    (hticks : ∀ i ∈ bits, i.tickCounter ≠ 0) :
    ∃ s', handleAll s bits = ((s.keys.receive byte.toNat).1, s') ∧ s'.packet = .clear ∧
      s'.keys = (s.keys.receive byte.toNat).2 := by
  have hlength := congrArg List.length hbits
  rw [List.length_map, length_packetBits] at hlength
  cases bits with
  | nil => exact absurd hlength (by decide)
  | cons first bits =>
      obtain ⟨tick, hrun⟩ := handleAll_packet hgaps hticks hready.resync
        (by rw [← hlength]; exact Nat.zero_add _)
      rw [hbits, key_packetBits] at hrun
      exact ⟨_, hrun, rfl, rfl⟩

/-- A fragment is given up at the gap behind it. -/
theorem Sends.handle_fragment (hready : s.Ready (bits ++ rest)) (hshort : bits.length < 11)
    (hgap : ∀ before after, bits.getLast? = some before → rest.head? = some after →
      2 < after.tickCounter - before.tickCounter) (hticks : ∀ i ∈ bits, i.tickCounter ≠ 0) :
    ∃ s', handleAll s bits = ([], s') ∧ s'.Ready rest ∧ s'.keys = s.keys := by
  cases bits with
  | nil => exact ⟨s, rfl, hready, rfl⟩
  | cons first bits =>
      have hclear := hready.resync
      obtain ⟨s', hrun, hkeys, hlast⟩ := @handleAll_fragment s first bits (by
        rw [hclear]
        exact Nat.lt_of_le_of_lt (Nat.le_of_eq (Nat.zero_add _)) hshort)
      refine ⟨s', hrun, Or.inr fun next hnext => ?_, hkeys⟩
      obtain ⟨last, hin⟩ : ∃ last, (first :: bits).getLast? = some last :=
        ⟨_, List.getLast?_eq_getLast_of_ne_nil (List.cons_ne_nil _ _)⟩
      rw [hlast last hin]
      exact ⟨hticks last (List.mem_of_getLast? hin), hgap last next hin hnext⟩

/-- The first machine hands on the bytes that are sent. -/
theorem Sends.handleAll_eq {interrupts : List Interrupt} (h : Sends interrupts bytes)
    (hready : s.Ready interrupts) (hticks : ∀ i ∈ interrupts, i.tickCounter ≠ 0) :
    (handleAll s interrupts).1 = (s.keys.receiveAll bytes).1 := by
  induction h generalizing s with
  | done => rfl
  | packet hbits hgaps hrest ih =>
      obtain ⟨hin, hafter⟩ := List.forall_mem_append.1 hticks
      obtain ⟨s', hrun, hclear, hkeys⟩ := Sends.handle_packet hready hbits hgaps hin
      rw [handleAll_append, hrun, ih (Or.inl hclear) hafter, hkeys]
      rfl
  | fragment hshort hgap hrest ih =>
      obtain ⟨hin, hafter⟩ := List.forall_mem_append.1 hticks
      obtain ⟨s', hrun, hready', hkeys⟩ := Sends.handle_fragment hready hshort hgap hin
      rw [handleAll_append, hrun, ih hready' hafter, hkeys]
      rfl

end Bytes

/-! ## The second machine -/

section Events

variable {keys : KeyFlags}

theorem receiveAll_cons {byte : UInt8} {bytes : List UInt8} : keys.receiveAll (byte :: bytes) =
    ((keys.receive byte.toNat).1 ++ ((keys.receive byte.toNat).2.receiveAll bytes).1,
      ((keys.receive byte.toNat).2.receiveAll bytes).2) := rfl

/-- A byte that is no prefix makes a call of all that has been seen before it. -/
theorem receive_code (code : ScanCode) (hpause : keys.pause = 0) :
    keys.receive code.1.toNat =
      ([⟨if keys.escape = 1 then code.1.toNat ||| 0x80 else code.1.toNat, keys.keyup = 0⟩],
        ⟨0, if keys.escape = 1 then 0 else keys.escape, 0⟩) := by
  have hescape : code.1.toNat ≠ 0xe0 := fun h => code.2.1 (UInt8.toNat_inj.1 h)
  have hpausing : code.1.toNat ≠ 0xe1 := fun h => code.2.2.1 (UInt8.toNat_inj.1 h)
  have hkeyup : code.1.toNat ≠ 0xf0 := fun h => code.2.2.2 (UInt8.toNat_inj.1 h)
  rw [KeyFlags.receive, if_neg hkeyup, if_neg hescape, if_neg hpausing, hpause]
  by_cases hextended : keys.escape = 1
  · simp [hextended, hpause]
  · simp [hextended, hpause]

/-- From no prefix to no prefix, an event leads to its call. -/
theorem receiveAll_event (event : KeyEvent) :
    KeyFlags.idle.receiveAll event.bytes = ([event.call], .idle) := by
  cases event with
  | key code extended released =>
      -- the prefixes are taken first, and then the code
      have hcode (keyup escape : Nat) := @receive_code ⟨keyup, escape, 0⟩ code rfl
      cases extended with
      | false =>
          cases released with
          | false =>
              have hbytes : (KeyEvent.key code false false).bytes = [code.1] := rfl
              rw [hbytes, receiveAll_cons, KeyFlags.idle, hcode 0 0]
              rfl
          | true =>
              have hbytes : (KeyEvent.key code false true).bytes = [0xf0, code.1] := rfl
              have hkeyup : KeyFlags.idle.receive (0xf0 : UInt8).toNat = ([], ⟨1, 0, 0⟩) := rfl
              rw [hbytes, receiveAll_cons, hkeyup, receiveAll_cons, hcode 1 0]
              rfl
      | true =>
          have hescape : KeyFlags.idle.receive (0xe0 : UInt8).toNat = ([], ⟨0, 1, 0⟩) := rfl
          cases released with
          | false =>
              have hbytes : (KeyEvent.key code true false).bytes = [0xe0, code.1] := rfl
              rw [hbytes, receiveAll_cons, hescape, receiveAll_cons, hcode 0 1]
              rfl
          | true =>
              have hbytes : (KeyEvent.key code true true).bytes = [0xe0, 0xf0, code.1] := rfl
              have hkeyup : (⟨0, 1, 0⟩ : KeyFlags).receive (0xf0 : UInt8).toNat =
                ([], ⟨1, 1, 0⟩) := rfl
              rw [hbytes, receiveAll_cons, hescape, receiveAll_cons, hkeyup, receiveAll_cons,
                hcode 1 1]
              rfl
  | pause released =>
      cases released with
      | false => rfl
      | true => rfl

theorem receiveAll_events (events : List KeyEvent) :
    KeyFlags.idle.receiveAll (events.flatMap KeyEvent.bytes) =
      (events.map KeyEvent.call, .idle) := by
  induction events with
  | nil => rfl
  | cons event events ih =>
      rw [List.flatMap_cons, receiveAll_append, receiveAll_event, ih, List.map_cons]
      rfl

end Events

/-- The calls of `translate_key` are those of the events, whatever fragments of packets stand between
the packets. -/
theorem keyCalls_eq {interrupts : List Interrupt} {events : List KeyEvent}
    (h : Sends interrupts (events.flatMap KeyEvent.bytes))
    (hticks : ∀ i ∈ interrupts, i.tickCounter ≠ 0) :
    (handleAll .start interrupts).1 = events.map KeyEvent.call := by
  have hrun := h.handleAll_eq (Or.inl rfl : Ps2.start.Ready interrupts) hticks
  have hkeys : Ps2.start.keys = .idle := rfl
  rw [hrun, hkeys, receiveAll_events]

/-- One bit that is lost behind a gap, and then a key that is pressed. -/
theorem keyCalls_eq_lost : (handleAll .start (⟨1, true⟩ ::
      (packetBits 0x1c).map fun bit => ⟨4, bit⟩)).1 =
    [KeyEvent.key ⟨0x1c, by decide⟩ false false].map KeyEvent.call := by
  have hpacket : Sends ((packetBits 0x1c).map (fun bit => ⟨4, bit⟩) ++ []) [0x1c] :=
    .packet (by decide) (by unfold InTime; decide) .done
  have hgap : ∀ before after : Interrupt, ([⟨1, true⟩] : List Interrupt).getLast? = some before →
      ((packetBits 0x1c).map (fun bit => (⟨4, bit⟩ : Interrupt)) ++ []).head? = some after →
      2 < after.tickCounter - before.tickCounter := by
    intro before after hbefore hafter
    rw [← Option.some.inj hbefore, ← Option.some.inj hafter]
    decide
  have hsends := Sends.fragment (by decide) hgap hpacket
  exact @keyCalls_eq _ [.key ⟨0x1c, by decide⟩ false false] hsends (by decide)

end Vmwos
