import Vmwos.Lib.Base
import Vmwos.Library.ByteArray
import Mathlib.Data.List.Induction

/-!
# The log of the kernel

`dmesg_append` copies a message behind the last one and goes on at the start of the buffer when the
end is reached; `dmesg_syscall` copies what lies between the head and the tail. Head and tail run
from 0 to the size of the buffer. `LogAt` says where they and the bytes are after a number of
bytes, `LogAt.append` that a message keeps it so, unless it has a single byte and the buffer is full:
then the tail comes to lie on the head, which stands for an empty log too.
-/

set_option autoImplicit false

namespace Vmwos

open Library FileBytes

/-- `DMESG_SIZE` -/
abbrev dmesgSize : Nat := 4096
/-- `SYSLOG_ACTION_READ_ALL` -/
def syslogActionReadAll : Int := 3
/-- `SYSLOG_ACTION_SIZE_BUFFER` -/
def syslogActionSizeBuffer : Int := 10

/-- `dmesg_buffer`, `dmesg_head` and `dmesg_tail`. -/
structure Dmesg where
  buffer : Nat → UInt8
  head : Nat
  tail : Nat

namespace Dmesg

/-- The buffer with other bytes from an offset on. -/
def store (buffer : Nat → UInt8) (offset : Nat) (data : List UInt8) : Nat → UInt8 :=
  fun i => if offset ≤ i ∧ i < offset + data.length then byteAt data (i - offset) else buffer i

/-- `memcpy` into the buffer. -/
def copyIn (buffer : Nat → UInt8) (offset : Nat) (data : List UInt8) :
    Except Stuck (Nat → UInt8) :=
  if offset + data.length ≤ dmesgSize then .ok (store buffer offset data) else .error .badAccess

/-- `memcpy` out of the buffer. -/
def copyOut (buffer : Nat → UInt8) (offset length : Nat) : Except Stuck (List UInt8) :=
  if offset + length ≤ dmesgSize then .ok ((List.range length).map fun i => buffer (offset + i))
  else .error .badAccess

/-- The head after a message. -/
def adjustHead (head tail : Nat) (wrapped : Prop) [Decidable wrapped] : Nat :=
  if wrapped then
    if tail + 1 > dmesgSize then tail + 1 - dmesgSize else tail + 1
  else head

/-- `dmesg_append` -/
def append (s : Dmesg) (buf : List UInt8) : Except Stuck (Int × Dmesg) :=
  let oldDmesgTail := s.tail
  if buf.length ≥ dmesgSize then .ok (-1, s)
  else
    let tail := s.tail + buf.length
    if tail > dmesgSize then
      match copyIn s.buffer oldDmesgTail (buf.take (dmesgSize - oldDmesgTail)) with
      | .error e => .error e
      | .ok buffer =>
          let tail := tail - dmesgSize
          match copyIn buffer 0 ((buf.drop (dmesgSize - oldDmesgTail)).take tail) with
          | .error e => .error e
          | .ok buffer =>
              .ok (0, ⟨buffer, adjustHead s.head tail (oldDmesgTail < s.head ∨ tail > s.head), tail⟩)
    else
      match copyIn s.buffer oldDmesgTail buf with
      | .error e => .error e
      | .ok buffer =>
          .ok (0, ⟨buffer, adjustHead s.head tail (s.head > oldDmesgTail ∧ s.head < tail), tail⟩)

/-- `dmesg_syscall`: the result and the bytes copied to `buf`. -/
def syscall (s : Dmesg) (cmd : Int) : Except Stuck (Int × List UInt8) :=
  if cmd = syslogActionReadAll then
    if s.head > s.tail then
      match copyOut s.buffer s.head (dmesgSize - s.head) with
      | .error e => .error e
      | .ok first =>
          match copyOut s.buffer 0 s.tail with
          | .error e => .error e
          | .ok second =>
              .ok (((dmesgSize - s.head + s.tail : Nat) : Int), first ++ second)
    else if s.head < s.tail then
      match copyOut s.buffer s.head (s.tail - s.head) with
      | .error e => .error e
      | .ok text => .ok (((s.tail - s.head : Nat) : Int), text)
    else .ok (0, [])
  else if cmd = syslogActionSizeBuffer then .ok (dmesgSize, [])
  else .ok (-einval, [])

/-- The log at the start. -/
def empty : Dmesg := ⟨fun _ => 0, 0, 0⟩

/-- The log after a sequence of messages. -/
def run : List (List UInt8) → Dmesg → Except Stuck Dmesg
  | [], s => .ok s
  | message :: messages, s =>
      match append s message with
      | .error e => .error e
      | .ok (_, s) => run messages s

/-- What is read after the messages is the end of the log, the last 4095 bytes at least. -/
def ReadsLog (messages : List (List UInt8)) : Prop :=
  ∃ s text, run messages empty = .ok s ∧ syscall s syslogActionReadAll = .ok (text.length, text) ∧
    text <:+ messages.flatten ∧ min messages.flatten.length 4095 ≤ text.length

/-! ## The buffer after a number of bytes -/

/-- The tail after `n` bytes; the end of the buffer stands for its start. -/
def tailAfter (n : Nat) : Nat := if n = 0 then 0 else (n - 1) % 4096 + 1

/-- The head: the start of the buffer, or once that has been overwritten the byte after the tail. -/
def headAfter (n : Nat) : Nat := if n ≤ 4096 then 0 else n % 4096 + 1

/-- Head and tail are where they belong, and the last 4096 bytes of the log are in their places. -/
structure LogAt (log : List UInt8) (s : Dmesg) : Prop where
  head : s.head = headAfter log.length
  tail : s.tail = tailAfter log.length
  bytes : ∀ i < log.length, log.length ≤ i + 4096 → s.buffer (i % 4096) = byteAt log i

theorem logAt_empty : LogAt [] empty where
  head := rfl
  tail := rfl
  bytes _ hi := absurd hi (Nat.not_lt_zero _)

section Append

variable {log message : List UInt8} {s : Dmesg}

theorem copyIn_of_le {buffer : Nat → UInt8} {offset : Nat} {data : List UInt8}
    (h : offset + data.length ≤ dmesgSize) :
    copyIn buffer offset data = .ok (store buffer offset data) := if_pos h

theorem store_of_mem {buffer : Nat → UInt8} {offset k : Nat} {data : List UInt8}
    (hk : k < data.length) : store buffer offset data (offset + k) = byteAt data k := by
  rw [store, if_pos ⟨Nat.le_add_right _ _, Nat.add_lt_add_left hk _⟩, Nat.add_sub_cancel_left]

theorem store_of_not_mem {buffer : Nat → UInt8} {offset i : Nat} {data : List UInt8}
    (hi : ¬ (offset ≤ i ∧ i < offset + data.length)) : store buffer offset data i = buffer i :=
  if_neg hi

theorem tailAfter_le (n : Nat) : tailAfter n ≤ 4096 := by
  unfold tailAfter
  split <;> omega

theorem tailAfter_mod (n : Nat) : tailAfter n % 4096 = n % 4096 := by
  unfold tailAfter
  split <;> omega

/-- Where the tail is after a message. -/
theorem tailAfter_add {n m : Nat} (hm : m < 4096) :
    tailAfter (n + m) = if tailAfter n + m > 4096 then tailAfter n + m - 4096 else tailAfter n + m := by
  unfold tailAfter
  split <;> split <;> split <;> omega

/-- The bytes that a message leaves alone stay where they are. -/
theorem old_place {n m i : Nat} (hi : i < n) (hlast : n + m ≤ i + 4096) :
    ¬ (tailAfter n ≤ i % 4096 ∧ i % 4096 < tailAfter n + m) ∧
      ¬ i % 4096 + 4096 < tailAfter n + m := by
  have htail := tailAfter_mod n
  have hle := tailAfter_le n
  constructor
  · rintro ⟨hlow, hhigh⟩
    omega
  · intro hlow
    omega

/-- A byte of a message goes behind the tail, or to the start of the buffer. -/
theorem new_place {n m k : Nat} (hk : k < m) (hm : m < 4096) :
    (n + k) % 4096 = if tailAfter n + k < 4096 then tailAfter n + k else tailAfter n + k - 4096 := by
  have htail := tailAfter_mod n
  have hle := tailAfter_le n
  split <;> omega

/-- The bytes in their places after a message has been copied behind the tail. -/
theorem bytes_append {buffer : Nat → UInt8} (hlen : message.length < 4096)
    (h : ∀ i < log.length, log.length ≤ i + 4096 → s.buffer (i % 4096) = byteAt log i)
    (hnew : ∀ k < message.length, buffer (if tailAfter log.length + k < 4096 then
      tailAfter log.length + k else tailAfter log.length + k - 4096) = byteAt message k)
    (hold : ∀ p < 4096, ¬ (tailAfter log.length ≤ p ∧ p < tailAfter log.length + message.length) →
      ¬ p + 4096 < tailAfter log.length + message.length → buffer p = s.buffer p) :
    ∀ i < (log ++ message).length, (log ++ message).length ≤ i + 4096 →
      buffer (i % 4096) = byteAt (log ++ message) i := by
  intro i hi hlast
  rw [List.length_append] at hi hlast
  rw [byteAt_append]
  rcases Nat.lt_or_ge i log.length with hbefore | hbehind
  · obtain ⟨hplace, hplace'⟩ := old_place hbefore hlast
    rw [if_pos hbefore, hold _ (Nat.mod_lt i (by decide)) hplace hplace']
    exact h i hbefore (by omega)
  · obtain ⟨k, rfl⟩ := Nat.exists_eq_add_of_le hbehind
    have hk : k < message.length := Nat.lt_of_add_lt_add_left hi
    rw [if_neg (Nat.not_lt.2 hbehind), Nat.add_sub_cancel_left, new_place hk hlen]
    exact hnew k hk

/-- A message that does not reach over the end of the buffer is copied in one piece. -/
theorem append_of_le (h : LogAt log s) (hlen : message.length < 4096)
    (hfits : s.tail + message.length ≤ 4096) :
    ∃ buffer, append s message = .ok (0, ⟨buffer,
        adjustHead s.head (s.tail + message.length)
          (s.head > s.tail ∧ s.head < s.tail + message.length),
        s.tail + message.length⟩) ∧
      ∀ i < (log ++ message).length, (log ++ message).length ≤ i + 4096 →
        buffer (i % 4096) = byteAt (log ++ message) i := by
  have hshort : ¬ message.length ≥ dmesgSize := Nat.not_le.2 hlen
  have hnowrap : ¬ s.tail + message.length > dmesgSize := Nat.not_lt.2 hfits
  refine ⟨store s.buffer s.tail message, ?_, bytes_append hlen h.bytes ?_ ?_⟩
  · simp only [append, hshort, hnowrap, if_false, copyIn_of_le hfits]
  · intro k hk
    rw [← h.tail, if_pos (Nat.lt_of_lt_of_le (Nat.add_lt_add_left hk _) hfits)]
    exact store_of_mem hk
  · intro p _ hplace _
    rw [← h.tail] at hplace
    exact store_of_not_mem hplace

theorem place_behind {tail room k : Nat} (hroom : 4096 - tail = room) (hle : tail ≤ 4096)
    (hk : ¬ tail + k < 4096) : tail + k - 4096 = 0 + (k - room) ∧ room ≤ k := by
  omega

/-- A longer one is copied in two pieces. -/
theorem append_of_lt (h : LogAt log s) (hlen : message.length < 4096)
    (hwraps : 4096 < s.tail + message.length) :
    ∃ buffer, append s message = .ok (0, ⟨buffer,
        adjustHead s.head (s.tail + message.length - 4096)
          (s.tail < s.head ∨ s.tail + message.length - 4096 > s.head),
        s.tail + message.length - 4096⟩) ∧
      ∀ i < (log ++ message).length, (log ++ message).length ≤ i + 4096 →
        buffer (i % 4096) = byteAt (log ++ message) i := by
  have hshort : ¬ message.length ≥ dmesgSize := Nat.not_le.2 hlen
  have hle : s.tail ≤ 4096 := h.tail ▸ tailAfter_le log.length
  obtain ⟨room, hroom⟩ : ∃ room, 4096 - s.tail = room := ⟨_, rfl⟩
  obtain ⟨rest, hrest⟩ : ∃ rest, s.tail + message.length - 4096 = rest := ⟨_, rfl⟩
  have hfirst : (message.take room).length = room := by
    rw [List.length_take]
    omega
  have hsecond : (message.drop room).length = rest := by
    rw [List.length_drop]
    omega
  have hwhole : (message.drop room).take rest = message.drop room :=
    List.take_of_length_le (Nat.le_of_eq hsecond)
  have hcopy : s.tail + (message.take room).length ≤ dmesgSize := by
    rw [hfirst]
    show _ ≤ 4096
    omega
  have hcopy' : 0 + (message.drop room).length ≤ dmesgSize := by
    rw [hsecond]
    show _ ≤ 4096
    omega
  rw [hrest]
  refine ⟨store (store s.buffer s.tail (message.take room)) 0 (message.drop room), ?_,
    bytes_append hlen h.bytes ?_ ?_⟩
  · have hwraps' : s.tail + message.length > dmesgSize := hwraps
    simp only [append, hshort, if_false, hwraps', if_true, hroom, hrest]
    simp only [copyIn_of_le hcopy, hwhole, copyIn_of_le hcopy']
  · intro k hk
    rw [← h.tail]
    split
    · -- the first piece, which the second does not reach
      rw [store_of_not_mem (by omega), store_of_mem (by omega), byteAt_take, if_pos (by omega)]
    · rename_i hbehind
      obtain ⟨hplace, hpast⟩ := place_behind hroom hle hbehind
      have hk' : k - room < (message.drop room).length := by
        rw [List.length_drop]
        exact Nat.sub_lt_sub_right hpast hk
      rw [hplace, store_of_mem hk', byteAt_drop, Nat.add_sub_cancel' hpast]
  · intro p _ hplace hplace'
    rw [← h.tail] at hplace hplace'
    rw [store_of_not_mem (by omega), store_of_not_mem (by omega)]

/-- Head and tail once the buffer has been full. -/
theorem tailAfter_of_lt {n : Nat} (hn : 4096 < n) :
    headAfter n = n % 4096 + 1 ∧ (n % 4096 = 0 ∧ tailAfter n = 4096 ∨ tailAfter n = n % 4096) := by
  unfold headAfter tailAfter
  rw [if_neg (Nat.not_le.2 hn), if_neg (Nat.ne_of_gt (Nat.lt_trans (by decide) hn))]
  omega

theorem tailAfter_of_le {n : Nat} (hn : n ≤ 4096) : headAfter n = 0 ∧ tailAfter n = n := by
  unfold headAfter tailAfter
  rw [if_pos hn]
  split <;> omega

/-- The head follows the tail. -/
theorem adjustHead_of_true {head tail n : Nat} {wrapped : Prop} [Decidable wrapped]
    (hwrapped : wrapped) (hn : 4096 < n) (htail : tail = tailAfter n) :
    adjustHead head tail wrapped = headAfter n := by
  obtain ⟨hhead, hlast⟩ := tailAfter_of_lt hn
  have hbound : n % 4096 < 4096 := Nat.mod_lt n (by decide)
  rw [adjustHead, if_pos hwrapped, hhead, htail]
  show (if tailAfter n + 1 > 4096 then tailAfter n + 1 - 4096 else tailAfter n + 1) = _
  split <;> omega

/-- The head after a message in one piece that does not bring the tail onto it. -/
theorem adjustHead_of_le {n m : Nat} (hm : m < 4096) (hfull : 4096 < n → m ≠ 1)
    (hfits : tailAfter n + m ≤ 4096) :
    adjustHead (headAfter n) (tailAfter n + m)
      (headAfter n > tailAfter n ∧ headAfter n < tailAfter n + m) = headAfter (n + m) := by
  have htail : tailAfter n + m = tailAfter (n + m) := by
    rw [tailAfter_add hm, if_neg (Nat.not_lt.2 hfits)]
  rcases Nat.lt_or_ge 4096 n with hn | hn
  · have hne := hfull hn
    obtain ⟨hhead, hlast⟩ := tailAfter_of_lt hn
    rcases Nat.eq_zero_or_pos m with rfl | hpos
    · exact if_neg fun h => Nat.lt_irrefl _ (Nat.lt_trans h.1 h.2)
    · refine adjustHead_of_true ?_ (Nat.lt_add_right m hn) htail
      rw [hhead]
      omega
  · obtain ⟨hhead, htail'⟩ := tailAfter_of_le hn
    have hsum : n + m ≤ 4096 := htail' ▸ hfits
    rw [hhead, (tailAfter_of_le hsum).1]
    exact if_neg fun h => Nat.not_lt_zero _ h.1

/-- The head after a message in two pieces that does not bring the tail onto it. -/
theorem adjustHead_of_lt {n m : Nat} (hm : m < 4096) (hfull : 4096 < n → m ≠ 1)
    (hwraps : 4096 < tailAfter n + m) :
    adjustHead (headAfter n) (tailAfter n + m - 4096)
      (tailAfter n < headAfter n ∨ tailAfter n + m - 4096 > headAfter n) = headAfter (n + m) := by
  have htail : tailAfter n + m - 4096 = tailAfter (n + m) := by
    rw [tailAfter_add hm, if_pos hwraps]
  rcases Nat.lt_or_ge 4096 n with hn | hn
  · have hne := hfull hn
    obtain ⟨hhead, hlast⟩ := tailAfter_of_lt hn
    refine adjustHead_of_true ?_ (Nat.lt_add_right m hn) htail
    rw [hhead]
    omega
  · obtain ⟨hhead, htail'⟩ := tailAfter_of_le hn
    have hsum : 4096 < n + m := htail' ▸ hwraps
    refine adjustHead_of_true (Or.inr ?_) hsum htail
    rw [hhead]
    exact Nat.sub_pos_of_lt hwraps

/-- A message keeps head, tail and bytes in their places. -/
theorem LogAt.append (h : LogAt log s) (hlen : message.length < 4096)
    (hfull : 4096 < log.length → message.length ≠ 1) :
    ∃ s', s.append message = .ok (0, s') ∧ LogAt (log ++ message) s' := by
  have hlength : (log ++ message).length = log.length + message.length := List.length_append
  rcases Nat.lt_or_ge 4096 (s.tail + message.length) with hwraps | hfits
  · obtain ⟨buffer, happend, hbytes⟩ := append_of_lt h hlen hwraps
    refine ⟨_, happend, ?_, ?_, hbytes⟩
    · simp only [h.head, h.tail] at hwraps ⊢
      rw [hlength]
      exact adjustHead_of_lt hlen hfull hwraps
    · simp only [h.tail] at hwraps ⊢
      rw [hlength, tailAfter_add hlen, if_pos hwraps]
  · obtain ⟨buffer, happend, hbytes⟩ := append_of_le h hlen hfits
    refine ⟨_, happend, ?_, ?_, hbytes⟩
    · simp only [h.head, h.tail] at hfits ⊢
      rw [hlength]
      exact adjustHead_of_le hlen hfull hfits
    · simp only [h.tail] at hfits ⊢
      rw [hlength, tailAfter_add hlen, if_neg (Nat.not_lt.2 hfits)]

end Append

/-! ## What is read -/

section Read

variable {log : List UInt8} {s : Dmesg}

theorem copyOut_of_le {buffer : Nat → UInt8} {offset length : Nat}
    (h : offset + length ≤ dmesgSize) :
    copyOut buffer offset length = .ok ((List.range length).map fun i => buffer (offset + i)) :=
  if_pos h

theorem byteAt_map_range (f : Nat → UInt8) {n i : Nat} (hi : i < n) :
    byteAt ((List.range n).map f) i = f i := by
  rw [byteAt_of_lt (by rwa [List.length_map, List.length_range]), List.getElem_map,
    List.getElem_range]

/-- A piece of the buffer that holds the end of the log. -/
theorem map_range_eq_drop {f : Nat → UInt8} {start n : Nat} (hlength : start + n = log.length)
    (h : ∀ i < n, f i = byteAt log (start + i)) : (List.range n).map f = log.drop start := by
  have hlen : ((List.range n).map f).length = n := by rw [List.length_map, List.length_range]
  refine ext_byteAt ?_ ?_
  · rw [hlen, List.length_drop, ← hlength, Nat.add_sub_cancel_left]
  · intro i hi
    rw [hlen] at hi
    rw [byteAt_map_range f hi, byteAt_drop, h i hi]

/-- Two pieces of the buffer that hold the end of the log. -/
theorem map_range_append_eq_drop {f g : Nat → UInt8} {start n m : Nat}
    (hlength : start + (n + m) = log.length) (hf : ∀ i < n, f i = byteAt log (start + i))
    (hg : ∀ i < m, g i = byteAt log (start + (n + i))) :
    (List.range n).map f ++ (List.range m).map g = log.drop start := by
  have hsplit : (List.range n).map f ++ (List.range m).map g =
      (List.range (n + m)).map fun i => if i < n then f i else g (i - n) := by
    rw [List.range_add, List.map_append, List.map_map]
    congr 1
    · refine List.map_congr_left fun i hi => ?_
      rw [if_pos (List.mem_range.1 hi)]
    · refine List.map_congr_left fun i _ => ?_
      rw [Function.comp_apply, if_neg (Nat.not_lt.2 (Nat.le_add_right n i)),
        Nat.add_sub_cancel_left]
  rw [hsplit]
  refine map_range_eq_drop hlength fun i hi => ?_
  by_cases hin : i < n
  · rw [if_pos hin, hf i hin]
  · obtain ⟨k, rfl⟩ := Nat.exists_eq_add_of_le (Nat.le_of_not_lt hin)
    rw [if_neg hin, Nat.add_sub_cancel_left, hg k (Nat.lt_of_add_lt_add_left hi)]

/-- Where the log that is read begins. -/
def readFrom (n : Nat) : Nat := if n ≤ 4096 then 0 else n - 4095

theorem syscall_of_lt {length : Nat} (h : s.head < s.tail) (htail : s.tail ≤ 4096)
    (hlength : s.head + length = s.tail) :
    syscall s syslogActionReadAll =
      .ok (length, (List.range length).map fun i => s.buffer (s.head + i)) := by
  have hcopy : s.head + length ≤ dmesgSize := by rwa [hlength]
  have hsub : s.tail - s.head = length := by rw [← hlength, Nat.add_sub_cancel_left]
  have hnot : ¬ s.head > s.tail := Nat.lt_asymm h
  simp only [syscall, if_true, hnot, if_false, h, hsub, copyOut_of_le hcopy]

theorem syscall_of_gt {length : Nat} (h : s.tail < s.head) (htail : s.tail ≤ 4096)
    (hlength : s.head + length = 4096) :
    syscall s syslogActionReadAll =
      .ok ((length + s.tail : Nat), ((List.range length).map fun i => s.buffer (s.head + i)) ++
        (List.range s.tail).map fun i => s.buffer (0 + i)) := by
  have hcopy : s.head + length ≤ dmesgSize := Nat.le_of_eq hlength
  have hcopy' : 0 + s.tail ≤ dmesgSize := by rwa [Nat.zero_add]
  have hsub : dmesgSize - s.head = length := by
    show 4096 - s.head = length
    rw [← hlength, Nat.add_sub_cancel_left]
  have hgt : s.head > s.tail := h
  simp only [syscall, if_true, hgt, hsub, copyOut_of_le hcopy, copyOut_of_le hcopy']

theorem syscall_of_eq (h : s.head = s.tail) : syscall s syslogActionReadAll = .ok (0, []) := by
  simp only [syscall, if_true, h, gt_iff_lt, Nat.lt_irrefl, if_false]

/-- All of a log that has not filled the buffer. -/
theorem LogAt.syscall_of_le (h : LogAt log s) (hn : log.length ≤ 4096) :
    s.syscall syslogActionReadAll = .ok (log.length, log) := by
  obtain ⟨hhead, htail⟩ := tailAfter_of_le hn
  have hs : s.head = 0 := h.head.trans hhead
  have ht : s.tail = log.length := h.tail.trans htail
  rcases Nat.eq_zero_or_pos log.length with hzero | hpos
  · rw [syscall_of_eq (hs.trans (ht.trans hzero).symm), hzero, List.eq_nil_of_length_eq_zero hzero]
    rfl
  · have hlt : s.head < s.tail := by rwa [hs, ht]
    have hread : (List.range log.length).map (fun i => s.buffer (s.head + i)) = log.drop 0 := by
      refine map_range_eq_drop (Nat.zero_add _) fun i hi => ?_
      rw [hs, Nat.zero_add, ← h.bytes i hi (Nat.le_trans hn (Nat.le_add_left _ i)),
        Nat.mod_eq_of_lt (Nat.lt_of_lt_of_le hi hn)]
    have hlength : s.head + log.length = s.tail := by rw [hs, ht, Nat.zero_add]
    rw [syscall_of_lt hlt (ht ▸ hn) hlength, hread, List.drop_zero]

/-- The place of a byte of the last 4095. -/
theorem read_place {n start size k : Nat} (hsize : size = 4095) (hn : start + size = n)
    (hk : k < size) :
    (n % 4096 + 1 + k < 4096 → (start + k) % 4096 = n % 4096 + 1 + k) ∧
      (4096 ≤ n % 4096 + 1 + k → (start + k) % 4096 = n % 4096 + 1 + k - 4096) := by
  omega

/-- The last 4095 bytes of a longer one. -/
theorem LogAt.syscall_of_lt (h : LogAt log s) {start size : Nat} (hn : 4096 < log.length)
    (hsize : size = 4095) (hstart : start + size = log.length) :
    s.syscall syslogActionReadAll = .ok (size, log.drop start) := by
  have hle : s.tail ≤ 4096 := h.tail ▸ tailAfter_le log.length
  obtain ⟨hhead, hlast⟩ := tailAfter_of_lt hn
  rw [← h.head] at hhead
  rw [← h.tail] at hlast
  have hbyte : ∀ k < size, s.buffer ((start + k) % 4096) = byteAt log (start + k) := fun k hk =>
    h.bytes _ (by omega) (by omega)
  rcases hlast with ⟨hzero, htail⟩ | htail
  · -- the tail at the end of the buffer, the head at its second byte
    have hs : s.head = 1 := by rw [hhead, hzero]
    have hread : (List.range size).map (fun i => s.buffer (s.head + i)) = log.drop start := by
      refine map_range_eq_drop hstart fun i hi => ?_
      rw [← hbyte i hi, (read_place hsize hstart hi).1 (by omega), hhead]
    rw [Dmesg.syscall_of_lt (by omega) hle (by omega : s.head + size = s.tail), hread]
  · -- the head behind the tail
    obtain ⟨length, hlength⟩ : ∃ length, s.head + length = 4096 :=
      ⟨4096 - s.head, Nat.add_sub_cancel' (by omega)⟩
    have hsum : length + s.tail = size := by omega
    have hread : (List.range length).map (fun i => s.buffer (s.head + i)) ++
        (List.range s.tail).map (fun i => s.buffer (0 + i)) = log.drop start := by
      refine map_range_append_eq_drop (by rw [hsum, hstart]) (fun i hi => ?_) fun i hi => ?_
      · rw [← hbyte i (by omega), (read_place hsize hstart (by omega)).1 (by omega), hhead]
      · have hi' : length + i < size := by omega
        have hpast : 4096 ≤ log.length % 4096 + 1 + (length + i) := by omega
        have hplace : log.length % 4096 + 1 + (length + i) = i + 4096 := by omega
        rw [← hbyte (length + i) hi', (read_place hsize hstart hi').2 hpast, hplace,
          Nat.add_sub_cancel, Nat.zero_add]
    rw [syscall_of_gt (by omega) hle hlength, hread, hsum]

end Read

/-! ## Sequences of messages -/

section Run

variable {messages before : List (List UInt8)} {message : List UInt8}

theorem run_append (after : List (List UInt8)) (s : Dmesg) :
    run (before ++ after) s = match run before s with
      | .error e => .error e
      | .ok s => run after s := by
  induction before generalizing s with
  | nil => rfl
  | cons message before ih =>
    simp only [List.cons_append, run]
    cases append s message with
    | error e => rfl
    | ok r => exact ih r.2

theorem run_singleton (s : Dmesg) : run [message] s = match append s message with
    | .error e => .error e
    | .ok (_, s) => .ok s := rfl

/-- No single byte follows once the buffer has been full. -/
def NoSingleByte (messages : List (List UInt8)) : Prop :=
  ∀ before message, before ++ [message] <+: messages → 4096 < before.flatten.length →
    message.length ≠ 1

theorem NoSingleByte.of_prefix (h : NoSingleByte messages) (hbefore : before <+: messages) :
    NoSingleByte before := fun _ _ hinit => h _ _ (hinit.trans hbefore)

/-- Without one, head, tail and bytes are where they belong after every sequence of messages. -/
theorem run_logAt (hshort : ∀ message ∈ messages, message.length < 4096)
    (h : NoSingleByte messages) : ∃ s, run messages empty = .ok s ∧ LogAt messages.flatten s := by
  induction messages using List.reverseRecOn with
  | nil => exact ⟨empty, rfl, logAt_empty⟩
  | append_singleton before message ih =>
    obtain ⟨s, hrun, hlog⟩ := ih (fun m hm => hshort m (List.mem_append_left _ hm))
      (h.of_prefix (List.prefix_append _ _))
    obtain ⟨s', happend, hlog'⟩ := hlog.append
      (hshort message (List.mem_append_right _ (List.mem_singleton_self _)))
      (h before message (List.prefix_refl _))
    refine ⟨s', ?_, ?_⟩
    · rw [run_append, hrun]
      simp only [run_singleton, happend]
    · rwa [List.flatten_append, List.flatten_singleton]

theorem LogAt.readsLog {s : Dmesg} (hrun : run messages empty = .ok s)
    (h : LogAt messages.flatten s) : ReadsLog messages := by
  rcases Nat.lt_or_ge 4096 messages.flatten.length with hn | hn
  · have hstart : messages.flatten.length - 4095 + 4095 = messages.flatten.length :=
      Nat.sub_add_cancel (by omega)
    have hlength : (messages.flatten.drop (messages.flatten.length - 4095)).length = 4095 := by
      rw [List.length_drop]
      omega
    refine ⟨s, messages.flatten.drop (messages.flatten.length - 4095), hrun, ?_,
      List.drop_suffix _ _, ?_⟩
    · rw [h.syscall_of_lt hn hlength (by rw [hlength, hstart])]
    · rw [hlength]
      exact Nat.min_le_right _ _
  · exact ⟨s, _, hrun, h.syscall_of_le hn, List.suffix_refl _, Nat.min_le_left _ _⟩

/-- A single byte brings the tail onto the head of a full buffer. -/
theorem LogAt.append_single {log : List UInt8} {s : Dmesg} (h : LogAt log s)
    (hn : 4096 < log.length) (hone : message.length = 1) :
    ∃ s', s.append message = .ok (0, s') ∧ s'.head = s'.tail := by
  have hlen : message.length < 4096 := by rw [hone]; decide
  obtain ⟨hhead, hlast⟩ := tailAfter_of_lt hn
  rw [← h.head] at hhead
  rw [← h.tail] at hlast
  rcases Nat.lt_or_ge 4096 (s.tail + message.length) with hwraps | hfits
  · obtain ⟨buffer, happend, -⟩ := append_of_lt h hlen hwraps
    have hnot : ¬ (s.tail < s.head ∨ s.tail + message.length - 4096 > s.head) := by omega
    refine ⟨_, happend, ?_⟩
    show adjustHead s.head _ _ = s.tail + message.length - 4096
    rw [adjustHead, if_neg hnot]
    omega
  · obtain ⟨buffer, happend, -⟩ := append_of_le h hlen hfits
    have hnot : ¬ (s.head > s.tail ∧ s.head < s.tail + message.length) := by omega
    refine ⟨_, happend, ?_⟩
    show adjustHead s.head _ _ = s.tail + message.length
    rw [adjustHead, if_neg hnot]
    omega

/-- Nothing is read then. -/
theorem not_readsLog (hshort : ∀ m ∈ before, m.length < 4096) (hbefore : NoSingleByte before)
    (hn : 4096 < before.flatten.length) (hone : message.length = 1) :
    ¬ ReadsLog (before ++ [message]) := by
  obtain ⟨s, hrun, hlog⟩ := run_logAt hshort hbefore
  obtain ⟨s', happend, heq⟩ := hlog.append_single hn hone
  have hrun' : run (before ++ [message]) empty = .ok s' := by
    rw [run_append, hrun]
    simp only [run_singleton, happend]
  rintro ⟨t, text, ht, hread, -, hlength⟩
  obtain rfl : t = s' := Except.ok.inj (ht.symm.trans hrun')
  rw [syscall_of_eq heq] at hread
  obtain rfl : [] = text := congrArg Prod.snd (Except.ok.inj hread)
  rw [List.flatten_append, List.flatten_singleton, List.length_append, List.length_nil] at hlength
  omega

/-- The log is read in every state of a run exactly when no message of a single byte is appended to
more than 4096 bytes. -/
theorem readsLog_iff (messages : List (List UInt8))
    (hshort : ∀ message ∈ messages, message.length < 4096) :
    (∀ before, before <+: messages → ReadsLog before) ↔
      ∀ before message, before ++ [message] <+: messages → 4096 < before.flatten.length →
        message.length ≠ 1 := by
  constructor
  · intro h
    -- by induction on the messages: the first single byte is the one that is not read
    induction messages using List.reverseRecOn with
    | nil =>
      intro before message hinit
      have hnil := List.prefix_nil.1 hinit
      exact absurd hnil (List.append_ne_nil_of_right_ne_nil _ (List.cons_ne_nil _ _))
    | append_singleton messages last ih =>
      have hno : NoSingleByte messages :=
        ih (fun m hm => hshort m (List.mem_append_left _ hm))
          fun before hinit => h before (hinit.trans (List.prefix_append _ _))
      intro before message hinit hn hone
      rcases List.prefix_concat_iff.1 hinit with heq | hinit'
      · obtain ⟨rfl, hlast⟩ := List.append_inj' heq rfl
        obtain rfl : message = last := List.singleton_inj.1 hlast
        exact not_readsLog (fun m hm => hshort m (List.mem_append_left _ hm)) hno hn hone
          (h _ (List.prefix_refl _))
      · exact hno before message hinit' hn hone
  · intro h before hinit
    obtain ⟨s, hrun, hlog⟩ := run_logAt (fun m hm => hshort m (hinit.subset hm))
      (NoSingleByte.of_prefix h hinit)
    exact hlog.readsLog hrun

theorem NoSingleByte.of_forall (h : ∀ message ∈ messages, message.length ≠ 1) :
    NoSingleByte messages := fun before message hinit _ =>
  h message (hinit.subset (List.mem_append_right before (List.mem_singleton_self message)))

theorem readsLog_two : ReadsLog [[72, 105], [33, 10]] :=
  (readsLog_iff [[72, 105], [33, 10]] (by decide)).2
    (NoSingleByte.of_forall (by decide)) _ (List.prefix_refl _)

/-- A message of 4095 bytes, one of ten and one of a single byte. -/
def fullThenSingle : List (List UInt8) :=
  [List.replicate 4095 65, List.replicate 10 66] ++ [[67]]

theorem not_readsLog_full :
    (∀ message ∈ fullThenSingle, message.length < 4096) ∧ ¬ ReadsLog fullThenSingle := by
  have hlength : ∀ message ∈ [List.replicate 4095 (65 : UInt8), List.replicate 10 66],
      message.length < 4096 ∧ message.length ≠ 1 := by
    simp only [List.forall_mem_cons, List.length_replicate]
    decide
  refine ⟨List.forall_mem_append.2 ⟨fun m hm => (hlength m hm).1, by decide⟩, ?_⟩
  refine not_readsLog (fun m hm => (hlength m hm).1)
    (NoSingleByte.of_forall fun m hm => (hlength m hm).2) ?_ rfl
  simp only [List.flatten_cons, List.flatten_nil, List.length_append, List.length_replicate,
    List.length_nil]
  decide

end Run

end Dmesg

end Vmwos
